import ScottyCore.Auth.Service

namespace ScottyCore
open Python
set_option autoImplicit true

/-! ## `core/auth.py` -/

/-- The credentials of a request: the session cookie and the bearer token when there are any,
and what is given as `_dev_token` or `X-Dev-Token`. -/
structure Request (Token : Type) where
  cf_email : Option String := none
  azure_email : Option String := none
  session : Option Token := none
  bearer : Option Token := none
  api_key : Option String := none
  dev_token : Option String := none

/-- A header or a parameter that is not empty. -/
def given : Option String → Option String
  | none | some "" => none
  | some s => some s

/-- `email.split("@")[0]` -/
def localPart (email : String) : String :=
  String.ofList (email.toList.takeWhile (· ≠ '@'))

/-- `datetime.fromtimestamp` knows the moment. -/
def timestampInRange (t : Int) : Bool := -62135596800 ≤ t ∧ t ≤ 253402300799

/-- `timedelta(minutes=m)` does not overflow. -/
def timedeltaInRange (minutes : Int) : Bool :=
  -999999999 ≤ minutes / 1440 ∧ minutes / 1440 ≤ 999999999

/-- The nil UUID of an API key's context. -/
def apiKeyUserId : Uuid := ⟨0⟩

def devBypassUserId : Uuid := ⟨0xffffffffffff⟩

namespace AuthService

variable (auth : AuthService Token)

def isAdminEmail (email : String) : Bool :=
  auth.settings.admin_email ≠ "" ∧ email = auth.normalise auth.settings.admin_email

/-- The user of an externally authenticated email, created when there is none. -/
def provision (email : String) (id : Uuid) (salt : Nat) (store : UserStore) :
    Except AppError (User × UserStore) :=
  match store.getByEmail email with
  | some u => .ok (u, store)
  | none =>
    let display_name := auth.libs.title (localPart email)
    if auth.isAdminEmail email then
      store.createSuperadmin auth email externalAuthSentinel display_name id salt
    else store.createExternalUser auth email display_name id salt

/-- `_resolve_external_user`. The context is built from the user as read before a promotion. -/
def resolveExternalUser (email : String) (id : Uuid) (salt : Nat) (store : UserStore) :
    Except AppError UserContext × UserStore :=
  match auth.provision email id salt store with
  | .error e => (.error e, store)
  | .ok (u, store) =>
    let store :=
      if auth.isAdminEmail email ∧ ¬ u.is_superadmin then store.promoteToSuperadmin email
      else store
    (.ok (store.buildUserContext u), store)

def timeoutMinutes : Int :=
  auth.settings.session_timeout_minutes.getD auth.settings.jwt_access_token_expire_minutes

/-- The idle timeout check. What makes it crash passes. -/
def sessionExpired (iat : Option Int) (now : Int) : Bool :=
  match iat with
  | none => false
  | some iat =>
    timestampInRange iat ∧ timedeltaInRange auth.timeoutMinutes ∧
      auth.timeoutMinutes * 60000000 < now - iat * 1000000

def resolveJwtUser (token : Token) (now : Int) (store : UserStore) :
    Except AppError UserContext := do
  let payload ← auth.decodeToken token now
  if payload.totp_pending then throw (.forbidden "TOTP verification required")
  match payload.sub with
  | none => throw (.authentication "Invalid token: no subject")
  | some user_id =>
    if auth.sessionExpired payload.iat now then
      throw (.authentication "Session expired — please log in again")
    match store.getById user_id with
    | none => throw (.authentication "User not found or inactive")
    | some u =>
      if !u.is_active then throw (.authentication "User not found or inactive")
      if payload.sv.getD 0 < u.session_version then
        throw (.authentication "Session invalidated — please log in again")
      return store.buildUserContext u

def verifyApiKey (api_key : String) (store : UserStore) : Option Tenant :=
  match store.tenants.find? fun t => t.api_key_prefix = some (auth.libs.sha256_prefix api_key) with
  | none => none
  | some tenant =>
    match given tenant.api_key_hash with
    | none => none
    | some hashed => if auth.verifyPassword api_key hashed then some tenant else none

def resolveApiKeyUser (api_key : String) (store : UserStore) : Except AppError UserContext :=
  match auth.verifyApiKey api_key store with
  | none => .error (.authentication "Invalid API key")
  | some tenant => .ok
    { user_id := apiKeyUserId
      email := "api@" ++ tenant.slug
      display_name := "API (" ++ tenant.name ++ ")"
      is_superadmin := false
      tenant_roles := [(tenant.slug, .admin)] }

/-- `_resolve_dev_bypass_user` -/
def devBypassUser : UserContext where
  user_id := devBypassUserId
  email := "dev-bypass@localhost"
  display_name := "Dev Bypass (Claude Code)"
  is_superadmin := true
  tenant_roles := []

/-- The email that a trusted provider vouches for, Cloudflare's first. -/
def externalEmail (request : Request Token) : Option String :=
  match (if "cloudflare" ∈ auth.settings.trusted_providers then given request.cf_email
    else none) with
  | some cf_email => some (auth.normalise cf_email)
  | none =>
    (if "azure" ∈ auth.settings.trusted_providers then given request.azure_email else none).map
      auth.normalise

/-- `get_current_user`. The key and the salt are those of a user that it provisions. -/
def getCurrentUser (request : Request Token) (now : Int) (id : Uuid) (salt : Nat)
    (store : UserStore) : Except AppError (Option UserContext) × UserStore :=
  match auth.externalEmail request with
  | some email =>
    let (result, store) := auth.resolveExternalUser email id salt store
    (result.map some, store)
  | none =>
    match request.session, request.bearer, given request.api_key, given request.dev_token with
    | some session_cookie, _, _, _ =>
      ((auth.resolveJwtUser session_cookie now store).map some, store)
    | none, some token, _, _ => ((auth.resolveJwtUser token now store).map some, store)
    | none, none, some api_key, _ => ((auth.resolveApiKeyUser api_key store).map some, store)
    | none, none, none, some dev_token =>
      if auth.settings.dev_bypass_token ≠ "" ∧ dev_token = auth.settings.dev_bypass_token then
        (.ok (some devBypassUser), store)
      else (.ok none, store)
    | none, none, none, none => (.ok none, store)

end AuthService

/-! ## `api/v1/ws.py` -/

/-- The gate of `task_stream`: whether the handshake with a session cookie is accepted. -/
def AuthService.taskStreamAccepts (auth : AuthService Token) (session : Option Token) (now : Int) :
    Bool :=
  match session with
  | none => true
  | some token =>
    match auth.libs.jwt.decode auth.settings.jwt_secret_key now token with
    | .ok _ => true
    | .error _ => false

end ScottyCore
