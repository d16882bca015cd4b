import ScottyCore.Users.Service

namespace ScottyCore
open Python
set_option autoImplicit true

/-! ## `services/auth/service.py` -/

structure LoginResponse (Token : Type) where
  access_token : Option Token := none
  token_type : String := "bearer"
  expires_in : Option Int := none
  requires_totp : Bool := false
  partial_token : Option Token := none

structure TokenResponse (Token : Type) where
  access_token : Token
  token_type : String := "bearer"
  expires_in : Int

def maxFailedAttempts : Nat := 5

def lockoutWindowMinutes : Int := 15

def lockoutDurationMinutes : Int := 30

namespace AuthService

variable (auth : AuthService Token)

def recordLoginAttempt (email : String) (success : Bool) (ip_address : String) (now : Int)
    (store : UserStore) : UserStore :=
  { store with
    login_attempts := store.login_attempts ++ [⟨auth.libs.lower email, success, ip_address, now⟩] }

/-- The attempts for an email in the rolling window, the latest first. -/
def recentAttempts (email : String) (now : Int) (store : UserStore) : List LoginAttempt :=
  (store.login_attempts.filter fun a =>
    a.email = auth.libs.lower email ∧
      now - lockoutWindowMinutes * 60000000 ≤ a.attempted_at).mergeSort
        fun a a' => a'.attempted_at ≤ a.attempted_at

/-- `check_lockout`. SQLite reads `attempted_at` back naive, and comparing it with the aware
start of the lockout raises. -/
def checkLockout (email : String) (now : Int) (store : UserStore) : Except AppError Bool :=
  let recent_attempts := auth.recentAttempts email now store
  let consecutive_failures := (recent_attempts.takeWhile fun a => !a.success).length
  if consecutive_failures < maxFailedAttempts then .ok false
  else
    match recent_attempts with
    | [] => .ok false
    | latest :: _ =>
      match auth.backend with
      | .sqlite => .error (.unexpected
          (.typeError "can't compare offset-naive and offset-aware datetimes"))
      | .postgresql => .ok (now - lockoutDurationMinutes * 60000000 ≤ latest.attempted_at)

def invalidCredentials : AppError := .authentication "Invalid email or password"

/-- What `login` answers for a user whose password is right. -/
def loginResponse (user : User) (now : Int) : LoginResponse Token :=
  if user.totp_enabled then
    { requires_totp := true
      partial_token := some (auth.createAccessToken user.id true user.session_version now) }
  else
    { access_token := some (auth.createAccessToken user.id false user.session_version now)
      expires_in := some (auth.settings.jwt_access_token_expire_minutes * 60) }

/-- `login`: the response, or the error, and the store afterwards. -/
def login (email password ip_address : String) (now : Int) (store : UserStore) :
    Except AppError (LoginResponse Token) × UserStore :=
  let email_lower := auth.normalise email
  let failed := (.error invalidCredentials,
    auth.recordLoginAttempt email_lower false ip_address now store)
  match auth.checkLockout email_lower now store with
  | .error e => (.error e, store)
  | .ok true => failed
  | .ok false =>
    match store.getPasswordHash email_lower with
    | none => failed
    | some password_hash =>
      if password_hash = "" ∨ ¬ auth.verifyPassword password password_hash then failed
      else
        match store.getByEmail email_lower with
        | none => failed
        | some user =>
          if !user.is_active then failed
          else (.ok (auth.loginResponse user now),
            auth.recordLoginAttempt email_lower true ip_address now store)

/-- The stored backup codes without the first one that a code matches. -/
def takeBackupCode (code : String) : List String → Option (List String)
  | [] => none
  | h :: hs =>
    if auth.verifyPassword code h then some hs else (takeBackupCode code hs).map (h :: ·)

def verifyTotp (user_id : Uuid) (code : String) (now : Int) (store : UserStore) :
    Bool × UserStore :=
  match store.getTotpFields user_id with
  | (none, _, _) | (some "", _, _) | (_, false, _) => (false, store)
  | (some totp_secret, true, backup_codes) =>
    if auth.libs.totp_verify totp_secret (strip code) now then (true, store)
    else
      match backup_codes with
      | none => (false, store)
      | some hashed_list =>
        match auth.takeBackupCode (auth.libs.upper (strip code)) hashed_list with
        | none => (false, store)
        | some remaining => (true, store.consumeBackupCode user_id remaining)

/-! ## `api/v1/auth.py` -/

/-- `POST /auth/totp/verify`, with the token of the `Authorization: Bearer` header if any. -/
def totpVerify (bearer : Option Token) (code : String) (now : Int) (store : UserStore) :
    Except AppError (TokenResponse Token) × UserStore :=
  match bearer with
  | none => (.error (.authentication "Partial token required in Authorization header"), store)
  | some partial_token =>
    match auth.decodeToken partial_token now with
    | .error _ => (.error (.authentication "Invalid or expired partial token"), store)
    | .ok payload =>
      if !payload.totp_pending then
        (.error (.authentication "Token is not a TOTP partial token"), store)
      else
        match payload.sub with
        | none => (.error (.authentication "Invalid token: no subject"), store)
        | some user_id =>
          match auth.verifyTotp user_id code now store with
          | (false, store) => (.error (.authentication "Invalid verification code"), store)
          | (true, store) =>
            (.ok { access_token := auth.createAccessToken user_id false 0 now
                   expires_in := auth.settings.jwt_access_token_expire_minutes * 60 }, store)

end AuthService

end ScottyCore
