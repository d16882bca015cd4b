import ScottyCore.Auth.CompletedLogin
import ScottyCore.Lib.Run

namespace ScottyCore
open Python TransitionSystem
set_option autoImplicit true

/-! ## The two halves of `verify_totp` -/

/-- What `verify_totp` decides on the fields that it read. -/
inductive TotpVerdict where
  | refused
  | accepted
  | consume (hashed remaining : List String)
  deriving DecidableEq

namespace AuthService

variable {auth : AuthService Token}

def totpVerdict (auth : AuthService Token) (code : String) (now : Int) :
    Option String × Bool × Option (List String) → TotpVerdict
  | (none, _, _) | (some "", _, _) | (_, false, _) => .refused
  | (some totp_secret, true, backup_codes) =>
    if auth.libs.totp_verify totp_secret (strip code) now then .accepted
    else
      match backup_codes with
      | none => .refused
      | some hashed_list =>
        match auth.takeBackupCode (auth.libs.upper (strip code)) hashed_list with
        | none => .refused
        | some remaining => .consume hashed_list remaining

/-- `verify_totp` in one piece is its reading half and then its writing half. -/
theorem verifyTotp_eq (auth : AuthService Token) (user_id : Uuid) (code : String) (now : Int)
    (store : UserStore) :
    auth.verifyTotp user_id code now store =
      match auth.totpVerdict code now (store.getTotpFields user_id) with
      | .refused => (false, store)
      | .accepted => (true, store)
      | .consume _ remaining => (true, store.consumeBackupCode user_id remaining) := by
  unfold verifyTotp totpVerdict
  obtain ⟨secret, enabled, codes⟩ := store.getTotpFields user_id
  cases secret with
  | none => rfl
  | some secret =>
    by_cases hempty : secret = ""
    · rw [hempty]
      rfl
    · cases enabled with
      | false => simp [hempty]
      | true =>
        simp only
        split
        · rfl
        · cases codes with
          | none => rfl
          | some hashed_list =>
            simp only
            cases auth.takeBackupCode (auth.libs.upper (strip code)) hashed_list with
            | none => rfl
            | some remaining => rfl

theorem takeBackupCode_eq_some {hashed remaining : List String}
    (h : auth.takeBackupCode code hashed = some remaining) :
    ∃ hash, auth.verifyPassword code hash = true ∧ hashed.Perm (hash :: remaining) := by
  induction hashed generalizing remaining with
  | nil => cases h
  | cons x xs ih =>
    rw [takeBackupCode] at h
    split at h
    · rename_i hv
      cases h
      exact ⟨x, hv, .refl _⟩
    · obtain ⟨rest, hrest, rfl⟩ := Option.map_eq_some_iff.1 h
      obtain ⟨hash, hv, hperm⟩ := ih hrest
      exact ⟨hash, hv, (hperm.cons x).trans (.swap hash x rest)⟩

theorem of_totpVerdict_consume
    (h : auth.totpVerdict code now fields = .consume hashed remaining) :
    fields.2.2 = some hashed ∧
      auth.takeBackupCode (auth.libs.upper (strip code)) hashed = some remaining := by
  unfold totpVerdict at h
  split at h
  · cases h
  · cases h
  · cases h
  · split at h
    · cases h
    · split at h
      · cases h
      · split at h
        · cases h
        · rename_i htake
          cases h
          exact ⟨rfl, htake⟩

end AuthService

/-! ## Calls in flight -/

structure PendingConsume where
  stored : List String
  hash : String
  remaining : List String

/-- The store, the calls between their two transactions, and the hashes of the codes that calls
accepted. No step reads the last. -/
structure VerifyState where
  store : UserStore
  pending : List PendingConsume
  accepted : List String

inductive VerifyAction where
  | verify (code : String)
  | consume (call : PendingConsume)
  | other

inductive VerifyStep (auth : AuthService Token) (user_id : Uuid) :
    VerifyState → VerifyAction → VerifyState → Prop where
  -- a call that is answered on what it read
  | answer : (∀ hashed remaining,
        auth.totpVerdict code now (s.store.getTotpFields user_id) ≠ .consume hashed remaining) →
      VerifyStep auth user_id s (.verify code) s
  | read : auth.totpVerdict code now (s.store.getTotpFields user_id) =
        .consume call.stored call.remaining →
      auth.verifyPassword (auth.libs.upper (strip code)) call.hash = true →
      call.stored.Perm (call.hash :: call.remaining) →
      VerifyStep auth user_id s (.verify code) { s with pending := call :: s.pending }
  | consume {rest : List PendingConsume} : s.pending.Perm (call :: rest) →
      VerifyStep auth user_id s (.consume call)
        { store := s.store.consumeBackupCode user_id call.remaining
          pending := rest
          accepted := call.hash :: s.accepted }
  -- transactions that leave the user's row alone
  | other : store.getById user_id = s.store.getById user_id →
      VerifyStep auth user_id s .other { s with store := store }

theorem VerifyStep.of_consume
    (h : auth.totpVerdict code now (s.store.getTotpFields user_id) = .consume hashed remaining) :
    ∃ s', VerifyStep auth user_id s (.verify code) s' := by
  obtain ⟨_, htake⟩ := AuthService.of_totpVerdict_consume h
  obtain ⟨hash, hv, hperm⟩ := AuthService.takeBackupCode_eq_some htake
  exact ⟨{ s with pending := ⟨hashed, hash, remaining⟩ :: s.pending }, .read h hv hperm⟩

/-- The codes that are stored for the user. -/
def VerifyState.codes (s : VerifyState) (user_id : Uuid) : List String :=
  (s.store.getTotpFields user_id).2.2.getD []

/-- Each initial code is stored or was accepted, and not both: none is accepted twice, and none is
lost or comes back. -/
def SingleUse (user_id : Uuid) (initial : List String) (s : VerifyState) : Prop :=
  ∀ hash, (s.codes user_id).count hash + s.accepted.count hash = initial.count hash

/-- A call writes over the codes that it read. -/
def WritesOverRead (user_id : Uuid) (s : VerifyState) : VerifyAction → Prop
  | .consume call => s.codes user_id = call.stored
  | _ => True

structure VerifyInv (user_id : Uuid) (initial : List String) (s : VerifyState) : Prop where
  stored : ∃ u, s.store.getById user_id = some u
  pending : ∀ call ∈ s.pending, call.stored.Perm (call.hash :: call.remaining)
  single : SingleUse user_id initial s

theorem codes_consume {store : UserStore} (h : store.getById user_id = some u) (rest accepted) :
    VerifyState.codes ⟨store.consumeBackupCode user_id remaining, rest, accepted⟩ user_id =
      remaining ∧ ∃ v, (store.consumeBackupCode user_id remaining).getById user_id = some v := by
  have hstored : (store.consumeBackupCode user_id remaining).getById user_id =
      some ({ backup_codes := some (some remaining) : UserChanges }.apply u) := by
    unfold UserStore.consumeBackupCode
    rw [h]
    exact UserTable.getById_update h
  refine ⟨?_, _, hstored⟩
  unfold VerifyState.codes UserStore.getTotpFields
  rw [hstored]
  rfl

theorem verifyInv_step (hi : VerifyInv user_id initial s)
    (h : Guarded (VerifyStep auth user_id) (WritesOverRead user_id) s a s') :
    VerifyInv user_id initial s' := by
  obtain ⟨hstep, hguard⟩ := h
  cases hstep with
  | answer => exact hi
  | read hverdict hv hperm =>
    refine ⟨hi.stored, ?_, hi.single⟩
    intro call hcall
    rcases List.mem_cons.1 hcall with rfl | hcall
    · exact hperm
    · exact hi.pending call hcall
  | @consume _ call rest hpending =>
    obtain ⟨u, hu⟩ := hi.stored
    obtain ⟨hcodes, hstored⟩ := codes_consume hu rest (call.hash :: s.accepted)
    have hread : s.codes user_id = call.stored := hguard
    have hcall := hi.pending call (hpending.mem_iff.2 List.mem_cons_self)
    refine ⟨hstored, fun c hc => hi.pending c (hpending.mem_iff.2 (List.mem_cons_of_mem _ hc)), ?_⟩
    intro hash
    have hsum := hi.single hash
    rw [hread, hcall.count_eq, List.count_cons] at hsum
    rw [hcodes, List.count_cons]
    omega
  | other hsame =>
    refine ⟨?_, hi.pending, ?_⟩
    · obtain ⟨u, hu⟩ := hi.stored
      exact ⟨u, hsame.trans hu⟩
    · intro hash
      have hsum := hi.single hash
      unfold VerifyState.codes UserStore.getTotpFields at hsum ⊢
      rw [hsame]
      exact hsum

/-- In every run whose calls write over the codes that they read, each backup code of the user is
used once. -/
theorem backupCodes_single_use {auth : AuthService Token} (hu : store.getById user_id = some u)
    (hrun : Run (Guarded (VerifyStep auth user_id) (WritesOverRead user_id)) ⟨store, [], []⟩ as s) :
    SingleUse user_id (u.backup_codes.getD []) s := by
  refine (hrun.invariant ?_ verifyInv_step).single
  refine ⟨⟨u, hu⟩, nofun, ?_⟩
  intro hash
  unfold VerifyState.codes UserStore.getTotpFields
  rw [hu, List.count_nil]
  rfl

/-- In every run of calls each backup code of a user with TOTP is used once. -/
def BackupCodesSingleUse (auth : AuthService Token) : Prop :=
  ∀ store user_id u as s, store.getById user_id = some u → u.totp_enabled = true →
    Run (VerifyStep auth user_id) ⟨store, [], []⟩ as s →
      SingleUse user_id (u.backup_codes.getD []) s

section

def carolCodes : User := { carolTotp with backup_codes := some ["hash:ABCD", "hash:WXYZ"] }

def carolIdle : VerifyState := ⟨storeOf carolCodes, [], []⟩

def takesFirst : PendingConsume := ⟨["hash:ABCD", "hash:WXYZ"], "hash:ABCD", ["hash:WXYZ"]⟩

def carolReading : VerifyState := { carolIdle with pending := [takesFirst] }

def carolConsumed (accepted : List String) : VerifyState where
  store := storeOf { carolCodes with backup_codes := some ["hash:WXYZ"] }
  pending := []
  accepted := accepted

theorem carol_reads (s : VerifyState) (h : s.store = carolIdle.store) :
    VerifyStep AuthService.sample carolId s (.verify "abcd ")
      { s with pending := takesFirst :: s.pending } := by
  have hverdict : AuthService.sample.totpVerdict "abcd " 0 (s.store.getTotpFields carolId) =
      .consume takesFirst.stored takesFirst.remaining := by
    rw [h]
    decide +kernel
  exact .read hverdict (by decide +kernel) (.refl _)

theorem carol_code_used : SingleUse carolId ["hash:ABCD", "hash:WXYZ"]
    (carolConsumed ["hash:ABCD"]) := by
  have hread : Guarded (VerifyStep AuthService.sample carolId) (WritesOverRead carolId) carolIdle
      (.verify "abcd ") carolReading := ⟨carol_reads carolIdle rfl, trivial⟩
  have hconsume : Guarded (VerifyStep AuthService.sample carolId) (WritesOverRead carolId)
      carolReading (.consume takesFirst) (carolConsumed ["hash:ABCD"]) := ⟨.consume (.refl _), rfl⟩
  exact backupCodes_single_use (u := carolCodes) rfl (.snoc (.single hread) hconsume)

/-- Two calls that both read before either writes accept the same code. -/
theorem backup_code_used_twice : ¬ BackupCodesSingleUse AuthService.sample := by
  intro h
  have hrun : Run (VerifyStep AuthService.sample carolId) carolIdle
      [.verify "abcd ", .verify "abcd ", .consume takesFirst, .consume takesFirst]
      (carolConsumed ["hash:ABCD", "hash:ABCD"]) := by
    have h₁ := carol_reads carolIdle rfl
    have h₂ := carol_reads carolReading rfl
    exact .snoc (.snoc (.snoc (.single h₁) h₂) (.consume (.refl _))) (.consume (.refl _))
  have hcount := h _ carolId carolCodes _ _ rfl rfl hrun "hash:ABCD"
  exact absurd hcount (by decide +kernel)

end

end ScottyCore
