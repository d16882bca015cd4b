import ScottyCore.Users.Runs

namespace ScottyCore
open Python TransitionSystem
set_option autoImplicit true

/-! ## `POST /auth/setup` -/

structure LoginRequest where
  email : String
  password : String

/-- The first transaction of `initial_setup`. -/
def setupGuard (store : UserStore) : Except AppError Unit :=
  if 0 < store.userCount then .error (.authentication "Setup already completed") else .ok ()

/-- The second transaction of `initial_setup`. -/
def setupCreate (auth : AuthService Token) (body : LoginRequest) (new_id : Uuid) (salt : Nat)
    (store : UserStore) : Except AppError (User × UserStore) :=
  store.createSuperadmin auth body.email body.password "Admin" new_id salt

/-- The store, the setup requests that passed the guard, and for each setup request that succeeded
the number of users it found when it inserted its own. No step reads the last. -/
structure SetupState where
  store : UserStore
  passed : List LoginRequest
  succeeded : List Nat

inductive SetupAction where
  | count (body : LoginRequest)
  | create (body : LoginRequest)
  | provision (email : String)
  | other

inductive SetupStep (auth : AuthService Token) : SetupState → SetupAction → SetupState → Prop where
  | refuse : setupGuard s.store = .error e → SetupStep auth s (.count body) s
  | count : setupGuard s.store = .ok () →
      SetupStep auth s (.count body) { s with passed := body :: s.passed }
  | create {rest : List LoginRequest} : s.passed.Perm (body :: rest) →
      setupCreate auth body new_id salt s.store = .ok (u, store) →
      SetupStep auth s (.create body)
        { store := store, passed := rest, succeeded := s.store.userCount :: s.succeeded }
  | fail {rest : List LoginRequest} : s.passed.Perm (body :: rest) →
      setupCreate auth body new_id salt s.store = .error e →
      SetupStep auth s (.create body) { s with passed := rest }
  | provision : auth.provision email new_id salt s.store = .ok (u, store) →
      SetupStep auth s (.provision email) { s with store := store }
  -- transactions that keep the users' keys
  | other : store.users.rows.map User.id = s.store.users.rows.map User.id →
      SetupStep auth s .other { s with store := store }

/-- At most one setup request succeeded, and that one found no user. -/
def SetupOnce (s : SetupState) : Prop := s.succeeded = [] ∨ s.succeeded = [0]

/-- A setup request inserts its user while there is none, unless its email is taken. -/
def CreatesFirst (s : SetupState) : SetupAction → Prop
  | .create body => s.store.userCount = 0 ∨ (s.store.getByEmail body.email).isSome = true
  | _ => True

structure SetupInv (s : SetupState) : Prop where
  once : SetupOnce s
  users : s.succeeded ≠ [] → 0 < s.store.userCount

theorem userCount_insert {store store' : UserStore}
    (h : store.users.insert u = .ok store'.users) : store'.userCount = store.userCount + 1 := by
  unfold UserTable.insert at h
  split at h
  · cases h
  · unfold UserStore.userCount
    rw [← Except.ok.inj h, List.length_append]
    rfl

theorem userCount_provision {auth : AuthService Token} {store store' : UserStore}
    (h : auth.provision email new_id salt store = .ok (u, store')) :
    store.userCount ≤ store'.userCount := by
  cases hfind : store.getByEmail email with
  | none =>
    rw [userCount_insert (inserts_provision hfind h).users]
    exact Nat.le_succ _
  | some v =>
    unfold AuthService.provision at h
    rw [hfind] at h
    cases h
    exact Nat.le_refl _

theorem setupInv_step (hi : SetupInv s)
    (h : Guarded (SetupStep auth) CreatesFirst s a s') : SetupInv s' := by
  obtain ⟨hstep, hguard⟩ := h
  cases hstep with
  | refuse => exact hi
  | count => exact ⟨hi.once, hi.users⟩
  | fail => exact ⟨hi.once, hi.users⟩
  | create hpassed hcreate =>
    have hempty : s.store.userCount = 0 := by
      apply hguard.resolve_right
      intro htaken
      obtain ⟨v, hv⟩ := Option.isSome_iff_exists.1 htaken
      unfold setupCreate UserStore.createSuperadmin at hcreate
      rw [hv] at hcreate
      cases hcreate
    have hnone : s.succeeded = [] := by
      by_contra hne
      have hpos := hi.users hne
      omega
    have hins := (inserts_createSuperadmin hcreate).users
    refine ⟨.inr ?_, fun _ => ?_⟩
    · rw [hempty, hnone]
    · rw [userCount_insert hins]
      exact Nat.succ_pos _
  | provision hprovision =>
    exact ⟨hi.once, fun hne => (hi.users hne).trans_le (userCount_provision hprovision)⟩
  | other hkeys =>
    have hlen := congrArg List.length hkeys
    rw [List.length_map, List.length_map] at hlen
    exact ⟨hi.once, fun hne => (hi.users hne).trans_eq hlen.symm⟩

/-- In every run whose setup requests insert before there is a user, at most one of them succeeds,
and none once a user exists. -/
theorem setup_once {auth : AuthService Token} {store : UserStore}
    (hrun : Run (Guarded (SetupStep auth) CreatesFirst) ⟨store, [], []⟩ as s) : SetupOnce s :=
  (hrun.invariant ⟨.inl rfl, fun h => (h rfl).elim⟩ setupInv_step).once

def SetupAlwaysOnce (auth : AuthService Token) : Prop :=
  ∀ store as s, Run (SetupStep auth) ⟨store, [], []⟩ as s → SetupOnce s

section

def setupStore : UserStore := ⟨.empty, [⟨1, "viewer"⟩], [], [], []⟩

def rootBody : LoginRequest := ⟨"root@example.org", "correct horse"⟩

def malloryBody : LoginRequest := ⟨"mallory@example.org", "battery staple"⟩

def adminOf (body : LoginRequest) (new_id : Uuid) : User where
  id := new_id
  email := body.email
  password_hash := "hash:" ++ body.password
  display_name := "Admin"
  is_superadmin := true

def rootCreated : UserStore :=
  { setupStore with
    users := ⟨[adminOf rootBody ⟨1⟩], List.nodup_singleton _, List.nodup_singleton _⟩ }

def bothCreated : UserStore :=
  { setupStore with
    users := ⟨[adminOf rootBody ⟨1⟩, adminOf malloryBody ⟨2⟩], by decide, by decide⟩ }

theorem root_setup_once : SetupOnce ⟨rootCreated, [], [0]⟩ := by
  have hcount : Guarded (SetupStep AuthService.sample) CreatesFirst ⟨setupStore, [], []⟩
      (.count rootBody) ⟨setupStore, [rootBody], []⟩ := ⟨.count rfl, trivial⟩
  have hcreate : Guarded (SetupStep AuthService.sample) CreatesFirst ⟨setupStore, [rootBody], []⟩
      (.create rootBody) ⟨rootCreated, [], [0]⟩ := by
    have hok : setupCreate AuthService.sample rootBody ⟨1⟩ 0 setupStore =
        .ok (adminOf rootBody ⟨1⟩, rootCreated) := rfl
    exact ⟨.create (.refl _) hok, .inl rfl⟩
  exact setup_once (.snoc (.single hcount) hcreate)

/-- Two requests that both count before either inserts both create a superadmin. -/
theorem setup_succeeds_twice : ¬ SetupAlwaysOnce AuthService.sample := by
  intro h
  have hroot : setupCreate AuthService.sample rootBody ⟨1⟩ 0 setupStore =
      .ok (adminOf rootBody ⟨1⟩, rootCreated) := rfl
  have hmallory : setupCreate AuthService.sample malloryBody ⟨2⟩ 0 rootCreated =
      .ok (adminOf malloryBody ⟨2⟩, bothCreated) := rfl
  have hrun : Run (SetupStep AuthService.sample) ⟨setupStore, [], []⟩
      [.count rootBody, .count malloryBody, .create rootBody, .create malloryBody]
      ⟨bothCreated, [], [1, 0]⟩ :=
    .snoc (.snoc (.snoc (.single (.count rfl)) (.count rfl)) (.create (.swap _ _ _) hroot))
      (.create (.refl _) hmallory)
  rcases h _ _ _ hrun with hnone | hone
  · cases hnone
  · cases hone

end

end ScottyCore
