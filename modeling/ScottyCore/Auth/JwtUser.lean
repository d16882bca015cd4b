import ScottyCore.Lib.Raise
import ScottyCore.Users.Runs

namespace ScottyCore
open Python
set_option autoImplicit true

namespace AuthService

variable {auth : AuthService Token} {store : UserStore}

/-! ## What `_resolve_jwt_user` accepts -/

/-- What the resolver demands of a token's claims and of the stored user. -/
structure Resolves (auth : AuthService Token) (payload : TokenClaims) (now : Int)
    (store : UserStore) (u : User) : Prop where
  not_pending : payload.totp_pending = false
  sub : payload.sub = some u.id
  fresh : auth.sessionExpired payload.iat now = false
  mem : u ∈ store.users
  active : u.is_active = true
  version : u.session_version ≤ payload.sv.getD 0

/-- A token is accepted exactly when it decodes to claims that resolve to a stored user. -/
theorem resolveJwtUser_ok_iff : auth.resolveJwtUser token now store = .ok ctx ↔
    ∃ payload u, auth.decodeToken token now = .ok payload ∧
      auth.Resolves payload now store u ∧ ctx = store.buildUserContext u := by
  unfold resolveJwtUser
  simp only [bind_eq_ok, raise_eq_ok]
  constructor
  · rintro ⟨payload, hdec, hpending, h⟩
    split at h
    · cases h
    · rename_i user_id hsub
      obtain ⟨hfresh, h⟩ := raise_eq_ok.1 h
      split at h
      · cases h
      · rename_i u hu
        obtain ⟨hactive, h⟩ := raise_eq_ok.1 h
        obtain ⟨hsv, hret⟩ := raise_eq_ok.1 h
        obtain ⟨hmem, rfl⟩ := UserTable.getById_eq_some.1 hu
        exact ⟨payload, u, hdec, ⟨Bool.eq_false_of_not_eq_true hpending, hsub,
          Bool.eq_false_of_not_eq_true hfresh, hmem, by simpa using hactive, Int.not_lt.1 hsv⟩,
          (Except.ok.inj hret).symm⟩
  · rintro ⟨payload, u, hdec, h, rfl⟩
    have hget : store.getById u.id = some u := UserTable.getById_eq_some.2 ⟨h.mem, rfl⟩
    refine ⟨payload, hdec, by simp [h.not_pending], ?_⟩
    rw [h.sub]
    refine raise_eq_ok.2 ⟨by simp [h.fresh], ?_⟩
    rw [hget]
    exact raise_eq_ok.2 ⟨by simp [h.active], raise_eq_ok.2 ⟨Int.not_lt.2 h.version, rfl⟩⟩

theorem decodeToken_encode (hj : auth.libs.jwt.Lawful) (claims : TokenClaims) (now : Int) :
    auth.decodeToken (auth.libs.jwt.encode auth.settings.jwt_secret_key claims) now =
      if claims.exp < seconds now then
        .error (.authentication ("Invalid token: " ++ "Signature has expired."))
      else .ok claims := by
  rw [decodeToken, hj]
  split
  · rename_i h
    split at h
    · cases h
    · rename_i hexp
      cases h
      rw [if_neg hexp]
  · rename_i h
    split at h
    · rename_i hexp
      cases h
      rw [if_pos hexp]
    · cases h

end AuthService

end ScottyCore
