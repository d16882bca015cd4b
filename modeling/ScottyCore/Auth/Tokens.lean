import ScottyCore.Core.Schema
import ScottyCore.Users.Models

namespace ScottyCore
open Python
set_option autoImplicit true

/-! ## The libraries -/

/-- `pwd_context`. A hash depends on a salt. -/
structure CryptContext where
  hash : Nat → String → String
  verify : String → String → Bool

/-- bcrypt verifies a password against its own hashes only, and no hash is empty. -/
structure CryptContext.Exact (c : CryptContext) : Prop where
  verify_iff : ∀ p q salt, c.verify p (c.hash salt q) = true ↔ p = q
  hash_ne : ∀ salt p, c.hash salt p ≠ ""

/-- The claims of a token. Times are seconds; `sub` is the text of a UUID. -/
structure TokenClaims where
  sub : Option Uuid
  type : String
  iat : Option Int
  exp : Int
  sv : Option Int
  totp_pending : Bool
  deriving DecidableEq

/-- `jose.jwt`, under a secret key and at a time in microseconds. -/
structure Jose (Token : Type) where
  encode : String → TokenClaims → Token
  decode : String → Int → Token → Except String TokenClaims

def seconds (micros : Int) : Int := micros / 1000000

/-- A token decodes to its claims under its own key until it expires. -/
def Jose.Lawful (j : Jose Token) : Prop :=
  ∀ key now claims, j.decode key now (j.encode key claims) =
    if claims.exp < seconds now then .error "Signature has expired." else .ok claims

theorem Jose.Lawful.injective {j : Jose Token} (h : j.Lawful)
    (he : j.encode key c = j.encode key c') : c = c' := by
  have hc := h key (min c.exp c'.exp * 1000000) c
  have hc' := h key (min c.exp c'.exp * 1000000) c'
  have hmin : seconds (min c.exp c'.exp * 1000000) = min c.exp c'.exp :=
    Int.mul_ediv_cancel _ (by decide)
  rw [hmin, if_neg (Int.not_lt.2 (Int.min_le_left _ _))] at hc
  rw [hmin, if_neg (Int.not_lt.2 (Int.min_le_right _ _)), ← he, hc] at hc'
  exact Except.ok.inj hc'

/-- What the services import: bcrypt, JWT, TOTP codes at a time, and `str` methods. -/
structure Libraries (Token : Type) where
  pwd_context : CryptContext
  jwt : Jose Token
  totp_verify : String → String → Int → Bool
  sha256_prefix : String → String
  lower : String → String
  upper : String → String
  title : String → String

/-- The settings that the auth code reads, with what `session_timeout_minutes` resolves to. -/
structure Settings where
  jwt_secret_key : String
  jwt_access_token_expire_minutes : Int
  jwt_refresh_token_expire_days : Int
  trusted_providers : List String
  admin_email : String
  dev_bypass_token : String
  session_timeout_minutes : Option Int

/-! ## The tokens of `AuthService` -/

structure AuthService (Token : Type) where
  backend : Backend
  libs : Libraries Token
  settings : Settings

def totpPartialTokenMinutes : Int := 5

namespace AuthService

variable (auth : AuthService Token)

def hashPassword (salt : Nat) (password : String) : String :=
  auth.libs.pwd_context.hash salt password

def verifyPassword (plain hashed : String) : Bool := auth.libs.pwd_context.verify plain hashed

/-- `email.strip().lower()` -/
def normalise (email : String) : String := auth.libs.lower (strip email)

/-- The claims of `create_access_token`. No caller passes `extra_claims`. -/
def accessClaims (user_id : Uuid) (totp_pending : Bool) (session_version now : Int) :
    TokenClaims where
  sub := some user_id
  type := "access"
  iat := some (seconds now)
  exp := seconds (now + (if totp_pending then totpPartialTokenMinutes
    else auth.settings.jwt_access_token_expire_minutes) * 60000000)
  sv := some session_version
  totp_pending := totp_pending

def createAccessToken (user_id : Uuid) (totp_pending : Bool) (session_version now : Int) : Token :=
  auth.libs.jwt.encode auth.settings.jwt_secret_key
    (auth.accessClaims user_id totp_pending session_version now)

/-- The claims of `create_refresh_token_value`: no `sv`. -/
def refreshClaims (user_id : Uuid) (now : Int) : TokenClaims where
  sub := some user_id
  type := "refresh"
  iat := some (seconds now)
  exp := seconds (now + auth.settings.jwt_refresh_token_expire_days * 86400000000)
  sv := none
  totp_pending := false

def createRefreshTokenValue (user_id : Uuid) (now : Int) : Token :=
  auth.libs.jwt.encode auth.settings.jwt_secret_key (auth.refreshClaims user_id now)

def decodeToken (token : Token) (now : Int) : Except AppError TokenClaims :=
  match auth.libs.jwt.decode auth.settings.jwt_secret_key now token with
  | .ok payload => .ok payload
  | .error e => .error (.authentication ("Invalid token: " ++ e))

end AuthService

/-! ## Plain libraries -/

def CryptContext.plain : CryptContext where
  hash _ p := "hash:" ++ p
  verify p h := h = "hash:" ++ p

theorem CryptContext.plain_exact : CryptContext.plain.Exact where
  verify_iff p q _ := by
    rw [plain, decide_eq_true_iff, String.append_right_inj]
    exact eq_comm
  hash_ne _ p h := by
    have hlen := congrArg String.length h
    rw [plain, String.length_append] at hlen
    cases Nat.eq_zero_of_add_eq_zero_right hlen

def Jose.plain : Jose (String × TokenClaims) where
  encode key claims := (key, claims)
  decode key now token :=
    if token.1 ≠ key then .error "Signature verification failed."
    else if token.2.exp < seconds now then .error "Signature has expired."
    else .ok token.2

theorem Jose.plain_lawful : Jose.plain.Lawful := fun _ _ _ => if_neg (not_not_intro rfl)

def Libraries.plain : Libraries (String × TokenClaims) where
  pwd_context := .plain
  jwt := .plain
  totp_verify secret code _ := code = secret
  sha256_prefix key := (key.take 16).toString
  lower s := s.map Char.toLower
  upper s := s.map Char.toUpper
  title s := s.capitalize

def Settings.sample : Settings where
  jwt_secret_key := "secret"
  jwt_access_token_expire_minutes := 15
  jwt_refresh_token_expire_days := 7
  trusted_providers := ["cloudflare", "azure"]
  admin_email := ""
  dev_bypass_token := ""
  session_timeout_minutes := none

def AuthService.sample : AuthService (String × TokenClaims) := ⟨.sqlite, .plain, .sample⟩

end ScottyCore
