import ScottyCore.Auth.CompletedLogin
import ScottyCore.Settings.Service

namespace ScottyCore
open Python
set_option autoImplicit true

/-! ## `core/middleware.py`, `totp_enforcement` -/

def totpExemptPrefixes : List String :=
  ["/api/v1/auth/", "/health", "/login", "/setup-2fa", "/change-password", "/static/", "/sw.js",
    "/api/v1/admin/version", "/api/v1/admin/update-check"]

def totpExempt (path : String) : Bool := totpExemptPrefixes.any fun p => p.isPrefixOf path

/-- What a middleware does with a request: run the handler, or answer itself. -/
inductive MiddlewareAnswer where
  | callNext
  | json (status_code : Nat) (detail : String) (totp_setup_required : Bool)
  deriving DecidableEq

def totpSetupRequired : MiddlewareAnswer := .json 403 "TOTP setup required" true

namespace AuthService

variable {auth : AuthService Token} {store : UserStore}

/-- The user that the middleware takes a token for. What goes wrong on the way is passed over. -/
def enforcedUser (auth : AuthService Token) (token : Token) (now : Int) (store : UserStore) :
    Option User :=
  match auth.decodeToken token now with
  | .error _ => none
  | .ok payload => if payload.totp_pending then none else payload.sub.bind store.getById

/-- `totp_enforcement`, once the app has its registry. -/
def totpEnforcement (auth : AuthService Token) (rows : SettingsTable) (path : String)
    (request : Request Token) (now : Int) (store : UserStore) : MiddlewareAnswer :=
  if totpExempt path then .callNext
  else
    match request.bearer with
    | none => .callNext
    | some token =>
      match rows.resolve "require_totp" none none with
      | .bool true =>
        match auth.enforcedUser token now store with
        | none => .callNext
        | some user => if user.totp_enabled then .callNext else totpSetupRequired
      | _ => .callNext

/-- `get_current_user` goes by a JWT, the cookie's or else the header's, and resolves it. -/
structure ResolvesByJwt (auth : AuthService Token) (request : Request Token) (now : Int)
    (store : UserStore) (ctx : UserContext) : Prop where
  not_external : auth.externalEmail request = none
  resolves : ∃ token, request.session.or request.bearer = some token ∧
    auth.resolveJwtUser token now store = .ok ctx

theorem ResolvesByJwt.getCurrentUser_eq (h : auth.ResolvesByJwt request now store ctx)
    (new_id : Uuid) (salt : Nat) :
    auth.getCurrentUser request now new_id salt store = (.ok (some ctx), store) := by
  obtain ⟨token, htoken, hres⟩ := h.resolves
  unfold getCurrentUser
  rw [h.not_external]
  cases hs : request.session with
  | some cookie =>
    rw [hs] at htoken
    cases htoken
    simp only [hres]
    rfl
  | none =>
    rw [hs] at htoken
    have hb : request.bearer = some token := htoken
    rw [hb]
    simp only [hres]
    rfl

/-- The header carries a token of a user without TOTP. -/
def BearerUnenrolled (auth : AuthService Token) (request : Request Token) (now : Int)
    (store : UserStore) : Prop :=
  ∃ token u, request.bearer = some token ∧ auth.enforcedUser token now store = some u ∧
    u.totp_enabled = false

theorem totpEnforcement_eq_iff {rows : SettingsTable} (hpath : totpExempt path = false)
    (hreq : rows.resolve "require_totp" none none = .bool true) :
    auth.totpEnforcement rows path request now store = totpSetupRequired ↔
      auth.BearerUnenrolled request now store := by
  unfold totpEnforcement BearerUnenrolled
  rw [hpath, if_neg (by decide), hreq]
  cases request.bearer with
  | none => exact ⟨nofun, nofun⟩
  | some token =>
    simp only
    cases huser : auth.enforcedUser token now store with
    | none =>
      refine ⟨nofun, ?_⟩
      rintro ⟨_, u, htoken, hu, _⟩
      cases htoken
      rw [huser] at hu
      cases hu
    | some u =>
      simp only
      cases hoff : u.totp_enabled with
      | false => exact ⟨fun _ => ⟨token, u, rfl, huser, hoff⟩, fun _ => if_neg (by decide)⟩
      | true =>
        rw [if_pos rfl]
        refine ⟨nofun, ?_⟩
        rintro ⟨_, v, htoken, hv, hvoff⟩
        cases htoken
        cases huser.symm.trans hv
        rw [hoff] at hvoff
        cases hvoff

theorem enforcedUser_of_resolves (h : auth.resolveJwtUser token now store = .ok ctx) :
    ∃ u, auth.enforcedUser token now store = some u ∧ ctx.totp_enabled = u.totp_enabled := by
  obtain ⟨payload, u, hdec, hres, rfl⟩ := resolveJwtUser_ok_iff.1 h
  refine ⟨u, ?_, rfl⟩
  unfold enforcedUser
  rw [hdec]
  simp only [hres.not_pending, hres.sub]
  exact UserTable.getById_eq_some.2 ⟨hres.mem, rfl⟩

end AuthService

/-! ## Mandatory TOTP -/

/-- When a request resolves by JWT to a user without TOTP, the middleware stops it exactly when it
carries no cookie, or also a header with a token of a user without TOTP. -/
theorem totp_enforced_iff {auth : AuthService Token} {rows : SettingsTable}
    (hjwt : auth.ResolvesByJwt request now store ctx) (hoff : ctx.totp_enabled = false)
    (hreq : rows.resolve "require_totp" none none = .bool true) (hpath : totpExempt path = false) :
    auth.totpEnforcement rows path request now store = totpSetupRequired ↔
      request.session = none ∨ auth.BearerUnenrolled request now store := by
  rw [AuthService.totpEnforcement_eq_iff hpath hreq]
  refine ⟨.inr, fun h => h.elim (fun hs => ?_) id⟩
  obtain ⟨token, htoken, hres⟩ := hjwt.resolves
  rw [hs] at htoken
  obtain ⟨u, hu, htotp⟩ := AuthService.enforcedUser_of_resolves hres
  exact ⟨token, u, htoken, hu, htotp.symm.trans hoff⟩

/-- While TOTP is required, no request outside the exempt paths that resolves by JWT to a user
without TOTP reaches its handler. -/
def TotpEnforced (auth : AuthService Token) : Prop :=
  ∀ rows path request now store ctx, auth.ResolvesByJwt request now store ctx →
    ctx.totp_enabled = false → SettingsTable.resolve rows "require_totp" none none = .bool true →
    totpExempt path = false →
    auth.totpEnforcement rows path request now store = totpSetupRequired

section

def carolToken : String × TokenClaims := AuthService.sample.createAccessToken carolId false 1 0

def carolContext : UserContext := (storeOf carol).buildUserContext carol

theorem carol_resolves (request : Request (String × TokenClaims))
    (hrequest : request.session.or request.bearer = some carolToken)
    (hexternal : AuthService.sample.externalEmail request = none) :
    AuthService.sample.ResolvesByJwt request 0 (storeOf carol) carolContext :=
  ⟨hexternal, carolToken, hrequest, rfl⟩

theorem carol_header_enforced :
    AuthService.sample.totpEnforcement [] "/api/v1/users/me" { bearer := some carolToken } 0
        (storeOf carol) = totpSetupRequired ↔
      (none : Option (String × TokenClaims)) = none ∨
        AuthService.sample.BearerUnenrolled { bearer := some carolToken } 0 (storeOf carol) :=
  totp_enforced_iff (carol_resolves _ rfl rfl) rfl rfl (by decide +kernel)

/-- The session cookie alone passes the middleware by. -/
theorem cookie_not_enforced : ¬ TotpEnforced AuthService.sample := by
  intro h
  have hstop := h [] "/api/v1/users/me" { session := some carolToken } 0 (storeOf carol)
    carolContext
    (carol_resolves _ rfl rfl) rfl rfl (by decide +kernel)
  exact absurd hstop (by decide +kernel)

end

end ScottyCore
