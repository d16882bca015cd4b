import ScottyCore.Auth.Tokens
import ScottyCore.Lib.Run

namespace ScottyCore
open Python TransitionSystem
set_option autoImplicit true

/-! ## `services/auth/service.py`, the refresh tokens -/

/-- A row of `refresh_tokens`. Times are microseconds. -/
structure RefreshToken where
  user_id : Uuid
  token_hash : String
  token_prefix : String
  is_revoked : Bool := false
  expires_at : Int

/-- A call, after it returned. A token is stored unless its hash is there already. -/
inductive TokenEvent where
  | created (user_id : Uuid) (now : Int)
  | stored (user_id : Uuid) (token : String) (expires_at : Int) (salt : Nat)
  | refused (user_id : Uuid) (token : String) (expires_at : Int) (salt : Nat)
  | revoked (token : String)

namespace RefreshToken

variable (auth : AuthService String)

/-- The row that `store_refresh_token` adds. -/
def ofToken (user_id : Uuid) (token : String) (expires_at : Int) (salt : Nat) : RefreshToken where
  user_id := user_id
  token_hash := auth.hashPassword salt token
  token_prefix := auth.libs.sha256_prefix token
  expires_at := expires_at

/-- What `revoke_refresh_token` selects. -/
def unrevoked (token : String) (r : RefreshToken) : Bool :=
  r.token_prefix = auth.libs.sha256_prefix token ∧ r.is_revoked = false

/-- What `is_refresh_token_valid` selects. -/
def live (token : String) (now : Int) (r : RefreshToken) : Bool :=
  r.unrevoked auth token ∧ now < r.expires_at

/-- `revoke_refresh_token` on the row that it found. -/
def revoke (token : String) (r : RefreshToken) : RefreshToken :=
  if auth.verifyPassword token r.token_hash then { r with is_revoked := true } else r

/-- `first()` gives some row of the result: no query has an order. -/
inductive Step : List RefreshToken → TokenEvent → List RefreshToken → Prop where
  | created {user_id : Uuid} : Step rows (.created user_id now) rows
  | stored {user_id : Uuid} {token : String} {expires_at : Int} {salt : Nat} : (∀ r ∈ rows, r.token_hash ≠ auth.hashPassword salt token) →
      Step rows (.stored user_id token expires_at salt)
        (rows ++ [ofToken auth user_id token expires_at salt])
  | refused {user_id : Uuid} {token : String} {expires_at : Int} {salt : Nat} : (∃ r ∈ rows, r.token_hash = auth.hashPassword salt token) →
      Step rows (.refused user_id token expires_at salt) rows
  | revokedNone {token : String} : (∀ r ∈ rows, r.unrevoked auth token = false) →
      Step rows (.revoked token) rows
  | revoked {token : String} {before after : List RefreshToken} : r.unrevoked auth token = true →
      Step (before ++ r :: after) (.revoked token) (before ++ r.revoke auth token :: after)

/-- What `is_refresh_token_valid` returns. -/
inductive Answers (token : String) (now : Int) (rows : List RefreshToken) : Bool → Prop where
  | none : (∀ r ∈ rows, r.live auth token now = false) → Answers token now rows false
  | found : r ∈ rows → r.live auth token now = true →
      Answers token now rows (auth.verifyPassword token r.token_hash)

/-- Of the tokens that are stored, no other one has the prefix of this one. -/
def OwnPrefix (as : List TokenEvent) (token : String) : Prop :=
  ∀ user_id other expires_at salt, .stored user_id other expires_at salt ∈ as →
    auth.libs.sha256_prefix other = auth.libs.sha256_prefix token → other = token

def Stores (as : List TokenEvent) (token : String) : Prop :=
  ∃ user_id expires_at salt, .stored user_id token expires_at salt ∈ as

/-- A revocation in this state is final, and a token that was never revoked is valid until it
expires. -/
structure TokenRevocation (as : List TokenEvent) (rows : List RefreshToken) (token : String) :
    Prop where
  final : ∀ revoked later rows', Step auth rows (.revoked token) revoked →
    Run (Step auth) revoked later rows' → OwnPrefix auth later token → ¬ Stores later token →
    ∀ now, ¬ Answers auth token now rows' true
  valid : ∀ user_id expires_at salt now, .stored user_id token expires_at salt ∈ as →
    now < expires_at → .revoked token ∉ as →
    Answers auth token now rows true ∧ ¬ Answers auth token now rows false

/-- `revoke_refresh_token` finds at most one row that it could mark. -/
def AtMostOneRow (token : String) (rows : List RefreshToken) : Prop :=
  (rows.filter (unrevoked auth token)).length ≤ 1

section
variable {auth : AuthService String} {rows rows' : List RefreshToken} {as later : List TokenEvent}
  {token : String} {r : RefreshToken} {a : TokenEvent} {now : Int}

/-! ## The token of a row -/

/-- The row was stored for a token. -/
def IsOf (auth : AuthService String) (as : List TokenEvent) (r : RefreshToken) (token : String) :
    Prop :=
  ∃ user_id expires_at salt, .stored user_id token expires_at salt ∈ as ∧
    r.token_hash = auth.hashPassword salt token ∧
    r.token_prefix = auth.libs.sha256_prefix token ∧ r.expires_at = expires_at

theorem IsOf.append (h : IsOf auth as r token) (bs : List TokenEvent) :
    IsOf auth (as ++ bs) r token := by
  obtain ⟨user_id, expires_at, salt, hmem, hrow⟩ := h
  exact ⟨user_id, expires_at, salt, List.mem_append_left _ hmem, hrow⟩

theorem IsOf.verify_iff (hc : auth.libs.pwd_context.Exact) (h : IsOf auth as r other) :
    auth.verifyPassword token r.token_hash = true ↔ token = other := by
  obtain ⟨_, _, salt, _, hhash, _⟩ := h
  rw [hhash]
  exact hc.verify_iff token other salt

theorem IsOf.revoke (h : IsOf auth as r other) (token : String) :
    IsOf auth as (r.revoke auth token) other := by
  obtain ⟨user_id, expires_at, salt, hmem, hhash, hdigest, hexpires⟩ := h
  rw [RefreshToken.revoke]
  split
  · exact ⟨user_id, expires_at, salt, hmem, hhash, hdigest, hexpires⟩
  · exact ⟨user_id, expires_at, salt, hmem, hhash, hdigest, hexpires⟩

/-- Every row was stored for a token, and a token that was never revoked keeps its rows. -/
structure RowsMatch (auth : AuthService String) (as : List TokenEvent) (rows : List RefreshToken) :
    Prop where
  stored : ∀ r ∈ rows, ∃ token, IsOf auth as r token
  kept : ∀ user_id token expires_at salt, .stored user_id token expires_at salt ∈ as →
    .revoked token ∉ as → ofToken auth user_id token expires_at salt ∈ rows

theorem RowsMatch.silent (h : RowsMatch auth as rows)
    (ha : ∀ user_id token expires_at salt, a ≠ .stored user_id token expires_at salt) :
    RowsMatch auth (as ++ [a]) rows := by
  constructor
  · intro r hr
    obtain ⟨token, hof⟩ := h.stored r hr
    exact ⟨token, hof.append [a]⟩
  · intro user_id token expires_at salt hstored hrevoked
    rcases List.mem_append.1 hstored with hmem | hlast
    · exact h.kept user_id token expires_at salt hmem
        fun hr => hrevoked (List.mem_append_left _ hr)
    · exact (ha _ _ _ _ (List.mem_singleton.1 hlast).symm).elim

theorem RowsMatch.step (hc : auth.libs.pwd_context.Exact) (h : RowsMatch auth as rows)
    (hstep : Step auth rows a rows') : RowsMatch auth (as ++ [a]) rows' := by
  cases hstep with
  | created => exact h.silent fun _ _ _ _ => TokenEvent.noConfusion
  | refused => exact h.silent fun _ _ _ _ => TokenEvent.noConfusion
  | revokedNone => exact h.silent fun _ _ _ _ => TokenEvent.noConfusion
  | @stored _ user_id token expires_at salt hnew =>
    constructor
    · intro r hr
      rcases List.mem_append.1 hr with hr | hr
      · obtain ⟨other, hof⟩ := h.stored r hr
        exact ⟨other, hof.append _⟩
      · rw [List.mem_singleton.1 hr]
        exact ⟨token, user_id, expires_at, salt, List.mem_append_right _ List.mem_cons_self,
          rfl, rfl, rfl⟩
    · intro user_id' token' expires_at' salt' hstored hrevoked
      rcases List.mem_append.1 hstored with hmem | hlast
      · apply List.mem_append_left
        exact h.kept _ _ _ _ hmem fun hr => hrevoked (List.mem_append_left _ hr)
      · cases List.mem_singleton.1 hlast
        exact List.mem_append_right _ List.mem_cons_self
  | @revoked r token before after hfound =>
    have hplace : ∀ q, q ∈ before ++ r.revoke auth token :: after →
        q = r.revoke auth token ∨ q ∈ before ++ r :: after := by
      intro q hq
      rcases List.mem_append.1 hq with hq | hq
      · exact .inr (List.mem_append_left _ hq)
      · rcases List.mem_cons.1 hq with hq | hq
        · exact .inl hq
        · exact .inr (List.mem_append_right _ (List.mem_cons_of_mem _ hq))
    constructor
    · intro q hq
      rcases hplace q hq with rfl | hq
      · obtain ⟨other, hof⟩ := h.stored r (List.mem_append_right _ List.mem_cons_self)
        exact ⟨other, (hof.revoke token).append _⟩
      · obtain ⟨other, hof⟩ := h.stored q hq
        exact ⟨other, hof.append _⟩
    · intro user_id' token' expires_at' salt' hstored hrevoked
      rcases List.mem_append.1 hstored with hmem | hlast
      · have hkept := h.kept _ _ _ _ hmem fun hr => hrevoked (List.mem_append_left _ hr)
        have hne : token ≠ token' := by
          rintro rfl
          exact hrevoked (List.mem_append_right _ List.mem_cons_self)
        rcases List.mem_append.1 hkept with hbefore | hrest
        · exact List.mem_append_left _ hbefore
        · apply List.mem_append_right
          rcases List.mem_cons.1 hrest with hsame | hafter
          · -- The row that was found is of another token: it is not marked.
            have hverify : auth.verifyPassword token r.token_hash = false := by
              apply Bool.eq_false_of_not_eq_true
              rw [← hsame]
              exact fun hv => hne ((hc.verify_iff token token' salt').1 hv)
            rw [RefreshToken.revoke, hverify, hsame]
            exact List.mem_cons_self
          · exact List.mem_cons_of_mem _ hafter
      · cases List.mem_singleton.1 hlast

theorem rowsMatch_run (hc : auth.libs.pwd_context.Exact) (hrun : Run (Step auth) [] as rows) :
    RowsMatch auth as rows := by
  induction hrun with
  | nil => exact ⟨nofun, nofun⟩
  | snoc _ hstep ih => exact ih.step hc hstep

/-! ## A revoked token -/

theorem unrevoked_eq_true :
    r.unrevoked auth token = true ↔
      r.token_prefix = auth.libs.sha256_prefix token ∧ r.is_revoked = false :=
  decide_eq_true_iff

theorem live_eq_true :
    r.live auth token now = true ↔ r.unrevoked auth token = true ∧ now < r.expires_at :=
  decide_eq_true_iff

/-- A row with the prefix of a token is of that token. -/
theorem RowsMatch.isOf (h : RowsMatch auth as rows) (hown : OwnPrefix auth as token)
    (hr : r ∈ rows) (hfound : r.unrevoked auth token = true) : IsOf auth as r token := by
  obtain ⟨other, hof⟩ := h.stored r hr
  obtain ⟨user_id, expires_at, salt, hmem, -, hdigest, -⟩ := id hof
  have hsame : other = token := by
    apply hown _ _ _ _ hmem
    rw [← hdigest]
    exact (unrevoked_eq_true.1 hfound).1
  exact hsame ▸ hof

theorem unrevoked_revoke (other token : String) (r : RefreshToken)
    (h : r.unrevoked auth token = false) :
    (r.revoke auth other).unrevoked auth token = false := by
  rw [revoke]
  split
  · apply Bool.eq_false_of_not_eq_true
    intro hmarked
    cases (unrevoked_eq_true.1 hmarked).2
  · exact h

/-- No row of the token is left unmarked. -/
def NoneLeft (auth : AuthService String) (token : String) (rows : List RefreshToken) : Prop :=
  ∀ r ∈ rows, r.unrevoked auth token = false

theorem NoneLeft.step (h : NoneLeft auth token rows) (hstep : Step auth rows a rows')
    (hother : ∀ user_id other expires_at salt, a = .stored user_id other expires_at salt →
      auth.libs.sha256_prefix other ≠ auth.libs.sha256_prefix token) :
    NoneLeft auth token rows' := by
  cases hstep with
  | created => exact h
  | refused => exact h
  | revokedNone => exact h
  | @stored _ user_id other expires_at salt hnew =>
    intro r hr
    rcases List.mem_append.1 hr with hr | hr
    · exact h r hr
    · rw [List.mem_singleton.1 hr]
      apply Bool.eq_false_of_not_eq_true
      exact fun hu => hother _ _ _ _ rfl (unrevoked_eq_true.1 hu).1
  | @revoked r other before after hfound =>
    intro q hq
    rcases List.mem_append.1 hq with hq | hq
    · exact h q (List.mem_append_left _ hq)
    · rcases List.mem_cons.1 hq with rfl | hq
      · exact unrevoked_revoke _ _ r (h r (List.mem_append_right _ List.mem_cons_self))
      · exact h q (List.mem_append_right _ (List.mem_cons_of_mem _ hq))

theorem NoneLeft.run (h : NoneLeft auth token rows) (hrun : Run (Step auth) rows later rows')
    (hown : OwnPrefix auth later token) (hnot : ¬ Stores later token) :
    NoneLeft auth token rows' := by
  induction hrun with
  | nil => exact h
  | @snoc later mid a _ _ hstep ih =>
    have hinit : NoneLeft auth token mid := by
      apply ih
      · intro user_id other expires_at salt hmem
        exact hown user_id other expires_at salt (List.mem_append_left _ hmem)
      · rintro ⟨user_id, expires_at, salt, hmem⟩
        exact hnot ⟨user_id, expires_at, salt, List.mem_append_left _ hmem⟩
    apply hinit.step hstep
    rintro user_id other expires_at salt rfl hsame
    have hmem : TokenEvent.stored user_id other expires_at salt ∈
        later ++ [.stored user_id other expires_at salt] :=
      List.mem_append_right _ List.mem_cons_self
    obtain rfl := hown _ _ _ _ hmem hsame
    exact hnot ⟨user_id, expires_at, salt, hmem⟩

theorem NoneLeft.not_valid (h : NoneLeft auth token rows) : ¬ Answers auth token now rows true := by
  intro hvalid
  generalize hanswer : true = b at hvalid
  cases hvalid with
  | none => cases hanswer
  | found hr hlive =>
    have hleft := (live_eq_true.1 hlive).1
    rw [h _ hr] at hleft
    cases hleft

/-- The one row that is there is marked. -/
theorem noneLeft_of_revoked (hc : auth.libs.pwd_context.Exact) (h : RowsMatch auth as rows)
    (hown : OwnPrefix auth as token) (hone : AtMostOneRow auth token rows)
    (hstep : Step auth rows (.revoked token) rows') : NoneLeft auth token rows' := by
  cases hstep with
  | revokedNone hnone => exact hnone
  | @revoked r _ before after hfound =>
    rw [AtMostOneRow, List.filter_append, List.length_append, List.filter_cons_of_pos hfound,
      List.length_cons] at hone
    have hbefore : before.filter (unrevoked auth token) = [] :=
      List.eq_nil_of_length_eq_zero (by omega)
    have hafter : after.filter (unrevoked auth token) = [] :=
      List.eq_nil_of_length_eq_zero (by omega)
    have hverify : auth.verifyPassword token r.token_hash = true := by
      have hof := h.isOf hown (List.mem_append_right _ List.mem_cons_self) hfound
      exact (hof.verify_iff hc).2 rfl
    intro q hq
    rcases List.mem_append.1 hq with hq | hq
    · exact Bool.eq_false_of_not_eq_true (List.filter_eq_nil_iff.1 hbefore q hq)
    · rcases List.mem_cons.1 hq with rfl | hq
      · apply Bool.eq_false_of_not_eq_true
        intro hmarked
        rw [RefreshToken.revoke, hverify, if_pos rfl] at hmarked
        cases (unrevoked_eq_true.1 hmarked).2
      · exact Bool.eq_false_of_not_eq_true (List.filter_eq_nil_iff.1 hafter q hq)

/-- Of two rows, one is marked and the other one verifies the token. -/
theorem valid_of_two (hc : auth.libs.pwd_context.Exact) (h : RowsMatch auth as rows)
    (hown : OwnPrefix auth as token) (htwo : ¬ AtMostOneRow auth token rows) :
    ∃ rows' now, Step auth rows (.revoked token) rows' ∧ Answers auth token now rows' true := by
  rw [AtMostOneRow] at htwo
  cases hfilter : rows.filter (unrevoked auth token) with
  | nil =>
    rw [hfilter] at htwo
    exact (htwo (Nat.zero_le 1)).elim
  | cons r rest =>
    cases rest with
    | nil =>
      rw [hfilter] at htwo
      exact (htwo (Nat.le_refl 1)).elim
    | cons r' rest =>
      obtain ⟨before, after, rfl, -, hr, hafter⟩ := List.filter_eq_cons_iff.1 hfilter
      have hr' : r' ∈ after ∧ r'.unrevoked auth token = true := by
        rw [← List.mem_filter, hafter]
        exact List.mem_cons_self
      have hof := h.isOf hown
        (List.mem_append_right before (List.mem_cons_of_mem r hr'.1)) hr'.2
      have hverify : auth.verifyPassword token r'.token_hash = true := (hof.verify_iff hc).2 rfl
      refine ⟨_, r'.expires_at - 1, .revoked hr, ?_⟩
      rw [← hverify]
      apply Answers.found (List.mem_append_right _ (List.mem_cons_of_mem _ hr'.1))
      exact live_eq_true.2 ⟨hr'.2, by omega⟩

/-! ## A token that was never revoked -/

theorem RowsMatch.valid (hc : auth.libs.pwd_context.Exact) (h : RowsMatch auth as rows)
    (hown : OwnPrefix auth as token) {user_id : Uuid} {expires_at : Int} {salt : Nat}
    (hstored : .stored user_id token expires_at salt ∈ as) (hnow : now < expires_at)
    (hnever : .revoked token ∉ as) :
    Answers auth token now rows true ∧ ¬ Answers auth token now rows false := by
  have hkept := h.kept _ _ _ _ hstored hnever
  have hlive : (ofToken auth user_id token expires_at salt).live auth token now = true :=
    live_eq_true.2 ⟨unrevoked_eq_true.2 ⟨rfl, rfl⟩, hnow⟩
  constructor
  · have hverify : auth.verifyPassword token (auth.hashPassword salt token) = true :=
      (hc.verify_iff token token salt).2 rfl
    rw [← hverify]
    exact .found hkept hlive
  · intro hinvalid
    generalize hanswer : false = b at hinvalid
    cases hinvalid with
    | none hnone =>
      rw [hnone _ hkept] at hlive
      cases hlive
    | found hr hfound =>
      have hof := h.isOf hown hr (live_eq_true.1 hfound).1
      rw [(hof.verify_iff hc).2 rfl] at hanswer
      cases hanswer

theorem token_revocation_iff (hc : auth.libs.pwd_context.Exact)
    (hrun : Run (Step auth) [] as rows) (hown : OwnPrefix auth as token) :
    TokenRevocation auth as rows token ↔ AtMostOneRow auth token rows := by
  have hmatch := rowsMatch_run hc hrun
  constructor
  · intro h
    by_contra htwo
    obtain ⟨rows', now, hstep, hvalid⟩ := valid_of_two hc hmatch hown htwo
    refine h.final rows' [] rows' hstep .nil ?_ ?_ now hvalid
    · intro user_id other expires_at salt hmem
      cases hmem
    · rintro ⟨user_id, expires_at, salt, hmem⟩
      cases hmem
  · intro hone
    constructor
    · intro revoked later rows' hstep hlater hownLater hnot now
      have hleft := noneLeft_of_revoked hc hmatch hown hone hstep
      exact (hleft.run hlater hownLater hnot).not_valid
    · intro user_id expires_at salt now hstored hnow hnever
      exact hmatch.valid hc hown hstored hnow hnever

end

end RefreshToken

/-- Two tokens of one user in one second are one token. -/
theorem AuthService.createRefreshTokenValue_congr (auth : AuthService Token) (user_id : Uuid)
    (h : seconds now = seconds now') :
    auth.createRefreshTokenValue user_id now = auth.createRefreshTokenValue user_id now' := by
  have hexp : ∀ t : Int, seconds (t + auth.settings.jwt_refresh_token_expire_days * 86400000000) =
      seconds t + auth.settings.jwt_refresh_token_expire_days * 86400 := by
    intro t
    rw [seconds, seconds]
    omega
  rw [createRefreshTokenValue, createRefreshTokenValue, refreshClaims, refreshClaims, hexp, hexp, h]

/-! ## Example -/

/-- Hashes that show their salt. -/
def CryptContext.salted : CryptContext where
  hash salt p := String.ofList (List.replicate salt '#' ++ '$' :: p.toList)
  verify p h := h.toList.dropWhile (· = '#') = '$' :: p.toList

theorem dropWhile_salt (salt : Nat) (cs : List Char) :
    (List.replicate salt '#' ++ '$' :: cs).dropWhile (· = '#') = '$' :: cs := by
  induction salt with
  | zero => rfl
  | succ salt ih =>
    rw [List.replicate_succ, List.cons_append, List.dropWhile_cons_of_pos]
    · exact ih
    · rfl

theorem CryptContext.salted_exact : CryptContext.salted.Exact where
  verify_iff p q salt := by
    rw [salted, decide_eq_true_iff, String.toList_ofList, dropWhile_salt, List.cons.injEq,
      String.toList_inj]
    exact ⟨fun h => h.2.symm, fun h => ⟨rfl, h.symm⟩⟩
  hash_ne salt p h := by
    have hlist := congrArg String.toList h
    rw [salted, String.toList_ofList, String.toList_empty, List.append_eq_nil_iff] at hlist
    cases hlist.2

/-- Tokens that are texts. -/
def textTokens : AuthService String where
  backend := .sqlite
  libs :=
    { pwd_context := .salted
      jwt :=
        { encode := fun key claims => key ++ "." ++ toString claims.exp
          decode := fun _ _ _ => .error "Not enough segments" }
      totp_verify := fun _ _ _ => false
      sha256_prefix := fun token => (token.take 16).toString
      lower := id
      upper := id
      title := id }
  settings := .sample

def storedOnce : List TokenEvent := [.stored ⟨1⟩ "t" 10 0]

theorem storedOnce_run : Run (RefreshToken.Step textTokens) [] storedOnce
    [.ofToken textTokens ⟨1⟩ "t" 10 0] :=
  .snoc .nil (.stored nofun)

theorem token_revocation_once :
    RefreshToken.TokenRevocation textTokens storedOnce [.ofToken textTokens ⟨1⟩ "t" 10 0] "t" := by
  have hown : RefreshToken.OwnPrefix textTokens storedOnce "t" := by
    intro user_id other expires_at salt hmem _
    cases List.mem_singleton.1 hmem
    rfl
  apply (RefreshToken.token_revocation_iff CryptContext.salted_exact storedOnce_run hown).2
  exact Nat.le_refl 1

/-- The token of a user in the first second. -/
def firstToken : String := textTokens.createRefreshTokenValue ⟨1⟩ 1000000

/-- The user logs in twice within a second. -/
def storedTwice : List TokenEvent :=
  [.created ⟨1⟩ 1000000, .stored ⟨1⟩ firstToken 604801000000 0, .created ⟨1⟩ 1500000,
    .stored ⟨1⟩ (textTokens.createRefreshTokenValue ⟨1⟩ 1500000) 604801500000 1]

theorem revoked_token_valid : ¬ ∀ as rows token, Run (RefreshToken.Step textTokens) [] as rows →
    RefreshToken.OwnPrefix textTokens as token →
      RefreshToken.TokenRevocation textTokens as rows token := by
  intro h
  have hsame : textTokens.createRefreshTokenValue ⟨1⟩ 1500000 = firstToken :=
    AuthService.createRefreshTokenValue_congr textTokens ⟨1⟩ rfl
  have hrun : Run (RefreshToken.Step textTokens) [] storedTwice
      [.ofToken textTokens ⟨1⟩ firstToken 604801000000 0,
        .ofToken textTokens ⟨1⟩ firstToken 604801500000 1] := by
    rw [storedTwice, hsame]
    apply Run.snoc (.snoc (.snoc (.snoc .nil .created) (.stored nofun)) .created)
    have hnew : ∀ r ∈ [RefreshToken.ofToken textTokens ⟨1⟩ firstToken 604801000000 0],
        r.token_hash ≠ textTokens.hashPassword 1 firstToken := by
      intro r hr hhash
      rw [List.mem_singleton.1 hr] at hhash
      have hlist : ('$' :: firstToken.toList) = '#' :: '$' :: firstToken.toList :=
        String.ofList_injective hhash
      cases hlist
    exact .stored hnew
  have hown : RefreshToken.OwnPrefix textTokens storedTwice firstToken := by
    intro user_id other expires_at salt hmem _
    rw [storedTwice, hsame] at hmem
    simp only [List.mem_cons, TokenEvent.stored.injEq, List.not_mem_nil, or_false, reduceCtorEq,
      false_or] at hmem
    rcases hmem with ⟨-, hother, -⟩ | ⟨-, hother, -⟩
    · exact hother
    · exact hother
  have hrevoked : RefreshToken.Step textTokens
      [.ofToken textTokens ⟨1⟩ firstToken 604801000000 0,
        .ofToken textTokens ⟨1⟩ firstToken 604801500000 1] (.revoked firstToken)
      [(RefreshToken.ofToken textTokens ⟨1⟩ firstToken 604801000000 0).revoke textTokens firstToken,
        .ofToken textTokens ⟨1⟩ firstToken 604801500000 1] := by
    have hfound : (RefreshToken.ofToken textTokens ⟨1⟩ firstToken 604801000000 0).unrevoked
        textTokens firstToken = true := RefreshToken.unrevoked_eq_true.2 ⟨rfl, rfl⟩
    change RefreshToken.Step textTokens ([] ++ _ :: _) _ ([] ++ _ :: _)
    exact .revoked hfound
  have hinvalid := (h _ _ _ hrun hown).final _ [] _ hrevoked .nil nofun nofun 2000000
  apply hinvalid
  have hverify : textTokens.verifyPassword firstToken
      (textTokens.hashPassword 1 firstToken) = true :=
    (CryptContext.salted_exact.verify_iff firstToken firstToken 1).2 rfl
  rw [← hverify]
  apply RefreshToken.Answers.found (List.mem_cons_of_mem _ List.mem_cons_self)
  exact RefreshToken.live_eq_true.2 ⟨RefreshToken.unrevoked_eq_true.2 ⟨rfl, rfl⟩, by decide⟩

end ScottyCore
