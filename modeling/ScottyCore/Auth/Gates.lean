import ScottyCore.Auth.JwtUser

namespace ScottyCore
open Python
set_option autoImplicit true

/-! ## The tokens that the service mints -/

inductive TokenKind where
  | access (session_version : Int)
  | totpPending (session_version : Int)
  | refresh

namespace AuthService

variable {auth : AuthService Token} {store : UserStore}

def mint (auth : AuthService Token) (user_id : Uuid) (minted : Int) : TokenKind → Token
  | .access sv => auth.createAccessToken user_id false sv minted
  | .totpPending sv => auth.createAccessToken user_id true sv minted
  | .refresh => auth.createRefreshTokenValue user_id minted

def claimsOf (auth : AuthService Token) (user_id : Uuid) (minted : Int) : TokenKind → TokenClaims
  | .access sv => auth.accessClaims user_id false sv minted
  | .totpPending sv => auth.accessClaims user_id true sv minted
  | .refresh => auth.refreshClaims user_id minted

theorem mint_eq (auth : AuthService Token) (user_id : Uuid) (minted : Int) (kind : TokenKind) :
    auth.mint user_id minted kind =
      auth.libs.jwt.encode auth.settings.jwt_secret_key (auth.claimsOf user_id minted kind) := by
  cases kind with
  | access sv => rfl
  | totpPending sv => rfl
  | refresh => rfl

/-! ## The gates -/

def RestAdmits (auth : AuthService Token) (token : Token) (now : Int) (store : UserStore) : Prop :=
  ∃ ctx, auth.resolveJwtUser token now store = .ok ctx

def StreamAdmits (auth : AuthService Token) (token : Token) (now : Int) : Prop :=
  auth.taskStreamAccepts (some token) now = true

/-- What a gate may admit: an access token that is not expired, of an active user whose session
version is not newer. -/
structure Admissible (claims : TokenClaims) (now : Int) (store : UserStore) : Prop where
  access : claims.type = "access"
  not_pending : claims.totp_pending = false
  unexpired : seconds now ≤ claims.exp
  user : ∃ u : User, u ∈ store.users ∧ claims.sub = some u.id ∧ u.is_active = true ∧
    ∃ sv, claims.sv = some sv ∧ u.session_version ≤ sv

/-- Both gates are sound for a token and agree on it. -/
structure GatesAgree (auth : AuthService Token) (token : Token) (claims : TokenClaims) (now : Int)
    (store : UserStore) : Prop where
  rest_sound : auth.RestAdmits token now store → Admissible claims now store
  stream_sound : auth.StreamAdmits token now → Admissible claims now store
  agree : auth.RestAdmits token now store ↔ auth.StreamAdmits token now

theorem restAdmits_encode_iff (hj : auth.libs.jwt.Lawful) :
    auth.RestAdmits (auth.libs.jwt.encode auth.settings.jwt_secret_key claims) now store ↔
      seconds now ≤ claims.exp ∧ ∃ u, auth.Resolves claims now store u := by
  unfold RestAdmits
  simp only [resolveJwtUser_ok_iff, decodeToken_encode hj]
  constructor
  · rintro ⟨ctx, payload, u, hdec, hres, _⟩
    split at hdec
    · cases hdec
    · rename_i hexp
      cases hdec
      exact ⟨Int.not_lt.1 hexp, u, hres⟩
  · rintro ⟨hexp, u, hres⟩
    exact ⟨_, claims, u, if_neg (Int.not_lt.2 hexp), hres, rfl⟩

theorem streamAdmits_encode_iff (hj : auth.libs.jwt.Lawful) (claims : TokenClaims) (now : Int) :
    auth.StreamAdmits (auth.libs.jwt.encode auth.settings.jwt_secret_key claims) now ↔
      seconds now ≤ claims.exp := by
  unfold StreamAdmits taskStreamAccepts
  simp only [hj auth.settings.jwt_secret_key now claims]
  by_cases hexp : claims.exp < seconds now
  · rw [if_pos hexp]
    exact ⟨nofun, fun h => (Int.not_lt.2 h hexp).elim⟩
  · rw [if_neg hexp]
    exact ⟨fun _ => Int.not_lt.1 hexp, fun _ => rfl⟩

theorem Admissible.restAdmits_iff (hj : auth.libs.jwt.Lawful) (h : Admissible claims now store) :
    auth.RestAdmits (auth.libs.jwt.encode auth.settings.jwt_secret_key claims) now store ↔
      auth.sessionExpired claims.iat now = false := by
  rw [restAdmits_encode_iff hj]
  constructor
  · rintro ⟨_, _, hres⟩
    exact hres.fresh
  · intro hfresh
    obtain ⟨u, hu, hsub, hact, sv, hsv, hle⟩ := h.user
    refine ⟨h.unexpired, u, h.not_pending, hsub, hfresh, hu, hact, ?_⟩
    rw [hsv]
    exact hle

/-- The resolver takes a refresh token for an access token of session version 0. -/
theorem restAdmits_refresh_iff (hj : auth.libs.jwt.Lawful) :
    auth.RestAdmits (auth.mint user_id minted .refresh) now store ↔
      seconds now ≤ (auth.refreshClaims user_id minted).exp ∧
      auth.sessionExpired (some (seconds minted)) now = false ∧
      ∃ u, store.getById user_id = some u ∧ u.is_active = true ∧ u.session_version ≤ 0 := by
  rw [mint_eq, restAdmits_encode_iff hj]
  constructor
  · rintro ⟨hexp, u, hres⟩
    have hu := UserTable.getById_eq_some.2 ⟨hres.mem, (Option.some.inj hres.sub).symm⟩
    exact ⟨hexp, hres.fresh, u, hu, hres.active, hres.version⟩
  · rintro ⟨hexp, hfresh, u, hu, hact, hsv⟩
    obtain ⟨hmem, rfl⟩ := UserTable.getById_eq_some.1 hu
    exact ⟨hexp, u, rfl, rfl, hfresh, hmem, hact, hsv⟩

end AuthService

/-- The gates are sound for a minted token and agree on it exactly when it is expired, or is
admissible and its session has not timed out. -/
theorem gates_agree_iff {auth : AuthService Token} (hj : auth.libs.jwt.Lawful) (user_id : Uuid)
    (minted : Int) (kind : TokenKind) (now : Int) (store : UserStore) :
    auth.GatesAgree (auth.mint user_id minted kind) (auth.claimsOf user_id minted kind) now store ↔
      (auth.claimsOf user_id minted kind).exp < seconds now ∨
        (AuthService.Admissible (auth.claimsOf user_id minted kind) now store ∧
          auth.sessionExpired (some (seconds minted)) now = false) := by
  have hiat : (auth.claimsOf user_id minted kind).iat = some (seconds minted) := by
    cases kind with
    | access sv => rfl
    | totpPending sv => rfl
    | refresh => rfl
  rw [auth.mint_eq, ← hiat]
  generalize auth.claimsOf user_id minted kind = claims
  have hstream := AuthService.streamAdmits_encode_iff hj claims now
  by_cases hexp : claims.exp < seconds now
  · have hrest : ¬ auth.RestAdmits
        (auth.libs.jwt.encode auth.settings.jwt_secret_key claims) now store := by
      intro h
      exact Int.not_lt.2 ((AuthService.restAdmits_encode_iff hj).1 h).1 hexp
    have hclosed := mt hstream.1 (Int.not_le.2 hexp)
    exact ⟨fun _ => .inl hexp, fun _ => ⟨fun h => (hrest h).elim, fun h => (hclosed h).elim,
      iff_of_false hrest hclosed⟩⟩
  · have hopen := hstream.2 (Int.not_lt.1 hexp)
    constructor
    · intro h
      have hadm := h.stream_sound hopen
      exact .inr ⟨hadm, (hadm.restAdmits_iff hj).1 (h.agree.2 hopen)⟩
    · intro h
      obtain ⟨hadm, hfresh⟩ := h.resolve_left hexp
      exact ⟨fun _ => hadm, fun _ => hadm,
        iff_of_true ((hadm.restAdmits_iff hj).2 hfresh) hopen⟩

/-- The gates are sound and agree, for every token and every state of its user. -/
def GatesAlwaysAgree (auth : AuthService Token) : Prop :=
  ∀ user_id minted kind now store,
    auth.GatesAgree (auth.mint user_id minted kind) (auth.claimsOf user_id minted kind) now store

section

theorem gates_agree_minute : AuthService.sample.GatesAgree
      (AuthService.sample.mint ⟨1⟩ 0 .refresh) (AuthService.sample.claimsOf ⟨1⟩ 0 .refresh)
      60000000 ⟨.empty, [], [], [], []⟩ ↔
    (AuthService.sample.claimsOf ⟨1⟩ 0 .refresh).exp < seconds 60000000 ∨
      (AuthService.Admissible (AuthService.sample.claimsOf ⟨1⟩ 0 .refresh) 60000000
          ⟨.empty, [], [], [], []⟩ ∧
        AuthService.sample.sessionExpired (some (seconds 0)) 60000000 = false) :=
  gates_agree_iff Jose.plain_lawful _ _ _ _ _

/-- The stream takes a refresh token of nobody. -/
theorem stream_admits_refresh : ¬ GatesAlwaysAgree AuthService.sample := by
  intro h
  have hsound := (h ⟨1⟩ 0 .refresh 60000000 ⟨.empty, [], [], [], []⟩).stream_sound rfl
  exact absurd hsound.access (by decide)

end

end ScottyCore
