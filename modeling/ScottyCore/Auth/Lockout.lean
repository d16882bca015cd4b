import ScottyCore.Auth.Credentials
import ScottyCore.Lib.Timeline

namespace ScottyCore
open Python Timeline
set_option autoImplicit true

/-! ## What `check_lockout` computes -/

namespace AuthService

variable {auth : AuthService Token} {store : UserStore}

def emailHistory (auth : AuthService Token) (email : String) (attempts : List LoginAttempt) :
    List LoginAttempt :=
  latestFirst LoginAttempt.attempted_at (attempts.filter fun a => a.email = auth.libs.lower email)

/-- The latest five attempts are failures inside the window. -/
def FiveLatest (history : List LoginAttempt) (now : Int) : Prop :=
  maxFailedAttempts ≤ history.length ∧ ∀ a ∈ history.take maxFailedAttempts,
    a.success = false ∧ now - lockoutWindowMinutes * 60000000 ≤ a.attempted_at

instance : Decidable (FiveLatest history now) := inferInstanceAs (Decidable (_ ∧ _))

theorem recentAttempts_eq (auth : AuthService Token) (email : String) (now : Int)
    (store : UserStore) :
    auth.recentAttempts email now store =
      (auth.emailHistory email store.login_attempts).takeWhile fun a =>
        now - lockoutWindowMinutes * 60000000 ≤ a.attempted_at := by
  unfold emailHistory
  rw [← latestFirst_since, List.filter_filter]
  unfold recentAttempts latestFirst
  congr 2
  funext a
  rw [Bool.decide_and, Bool.and_comm]

theorem fiveLatest_iff (history : List LoginAttempt) (now : Int) :
    FiveLatest history now ↔ maxFailedAttempts ≤ ((history.takeWhile fun a =>
      now - lockoutWindowMinutes * 60000000 ≤ a.attempted_at).takeWhile
        fun a => !a.success).length := by
  rw [List.takeWhile_takeWhile, le_length_takeWhile]
  refine and_congr_right fun _ => forall₂_congr fun a _ => ?_
  simp only [Bool.not_eq_true', decide_eq_true_eq]

theorem checkLockout_eq (auth : AuthService Token) (email : String) (now : Int)
    (store : UserStore) :
    auth.checkLockout email now store =
      if FiveLatest (auth.emailHistory email store.login_attempts) now then
        match auth.backend with
        | .sqlite => .error (.unexpected
            (.typeError "can't compare offset-naive and offset-aware datetimes"))
        | .postgresql => .ok true
      else .ok false := by
  unfold checkLockout
  rw [recentAttempts_eq]
  have hiff := fiveLatest_iff (auth.emailHistory email store.login_attempts) now
  cases hrecent : (auth.emailHistory email store.login_attempts).takeWhile fun a =>
      now - lockoutWindowMinutes * 60000000 ≤ a.attempted_at with
  | nil =>
    rw [hrecent] at hiff
    rw [if_neg (fun h => absurd (hiff.1 h) (by decide))]
    rfl
  | cons latest rest =>
    rw [hrecent] at hiff
    have hwindow : now - lockoutWindowMinutes * 60000000 ≤ latest.attempted_at := by
      have hmem : latest ∈ (auth.emailHistory email store.login_attempts).takeWhile fun a =>
          now - lockoutWindowMinutes * 60000000 ≤ a.attempted_at := by
        rw [hrecent]
        exact List.mem_cons_self
      have hsince := List.mem_takeWhile_imp hmem
      exact of_decide_eq_true hsince
    by_cases hfive : FiveLatest (auth.emailHistory email store.login_attempts) now
    · rw [if_pos hfive]
      simp only
      rw [if_neg (Nat.not_lt.2 (hiff.1 hfive))]
      cases auth.backend with
      | sqlite => rfl
      | postgresql =>
        have hduration : now - lockoutDurationMinutes * 60000000 ≤ latest.attempted_at := by
          unfold lockoutDurationMinutes
          unfold lockoutWindowMinutes at hwindow
          omega
        exact congrArg Except.ok (decide_eq_true hduration)
    · rw [if_neg hfive]
      exact if_pos (Nat.lt_of_not_le fun h => hfive (hiff.2 h))

/-! ## The lockout that is documented -/

/-- Five consecutive attempts, all failures and within 15 minutes. -/
def IsStreak (five : List LoginAttempt) : Prop :=
  five.length = maxFailedAttempts ∧ (∀ a ∈ five, a.success = false) ∧
    ∀ a ∈ five, ∀ b ∈ five, a.attempted_at - b.attempted_at ≤ lockoutWindowMinutes * 60000000

/-- A run of failures holds a streak, and 30 minutes have not passed since the latest of the
run. -/
def DocumentedLock (history : List LoginAttempt) (now : Int) : Prop :=
  ∃ latest failures, (latest :: failures) <:+: history ∧
    (∀ a ∈ latest :: failures, a.success = false) ∧
    (∃ five, five <:+: latest :: failures ∧ IsStreak five) ∧
    now - latest.attempted_at < lockoutDurationMinutes * 60000000

def RecentStreak (history : List LoginAttempt) (now : Int) : Prop :=
  ∃ five, five <:+: history ∧ IsStreak five ∧
    ∀ a ∈ five, now - lockoutDurationMinutes * 60000000 ≤ a.attempted_at

/-- With these attempts recorded no password logs in for the email, whoever the users are. -/
def RefusesAll (auth : AuthService Token) (attempts : List LoginAttempt) (email : String)
    (now : Int) : Prop :=
  ∀ store : UserStore, store.login_attempts = attempts → ∀ password ip_address r,
    (auth.login email password ip_address now store).1 ≠ .ok r

/-- The lockout lasts as documented, and nothing else locks. -/
structure LockoutAsDocumented (auth : AuthService Token) (attempts : List LoginAttempt)
    (email : String) (now : Int) : Prop where
  locks : DocumentedLock (auth.emailHistory (auth.normalise email) attempts) now →
    auth.RefusesAll attempts email now
  only : (∀ a ∈ attempts, a.attempted_at ≤ now) →
    ¬ RecentStreak (auth.emailHistory (auth.normalise email) attempts) now →
    ∀ store : UserStore, store.login_attempts = attempts →
      auth.checkLockout (auth.normalise email) now store ≠ .ok true

theorem refusesAll_iff (hb : auth.libs.pwd_context.VerifiesOwn) :
    auth.RefusesAll attempts email now ↔
      FiveLatest (auth.emailHistory (auth.normalise email) attempts) now := by
  constructor
  · intro hrefuse
    by_contra hfive
    let u : User :=
      { id := ⟨0⟩, email := auth.normalise email, password_hash := auth.hashPassword 0 ""
        display_name := "" }
    let store : UserStore :=
      ⟨⟨[u], List.nodup_singleton _, List.nodup_singleton _⟩, [], [], [], attempts⟩
    have hlock : auth.checkLockout (auth.normalise email) now store = .ok false := by
      rw [checkLockout_eq]
      exact if_neg hfive
    have hfind : store.getByEmail (auth.normalise email) = some u :=
      UserTable.getByEmail_eq_some.2 ⟨List.mem_cons_self, rfl⟩
    exact hrefuse store rfl "" "" _ (login_ok_iff.2
      ⟨hlock, u, hfind, ⟨(hb "" 0).2, (hb "" 0).1, rfl⟩, rfl⟩)
  · rintro hfive store rfl password ip_address r hlogin
    obtain ⟨hlock, _⟩ := login_ok_iff.1 hlogin
    rw [checkLockout_eq, if_pos hfive] at hlock
    cases hbackend : auth.backend with
    | sqlite => rw [hbackend] at hlock; cases hlock
    | postgresql => rw [hbackend] at hlock; cases hlock

theorem recentStreak_of_fiveLatest (hpast : ∀ a ∈ attempts, a.attempted_at ≤ now)
    (h : FiveLatest (auth.emailHistory email attempts) now) :
    RecentStreak (auth.emailHistory email attempts) now := by
  obtain ⟨hlen, hfive⟩ := h
  have hbefore : ∀ a ∈ (auth.emailHistory email attempts).take maxFailedAttempts,
      a.attempted_at ≤ now := by
    intro a ha
    exact hpast a (List.mem_of_mem_filter (mem_latestFirst.1 (List.mem_of_mem_take ha)))
  refine ⟨_, (List.take_prefix maxFailedAttempts _).isInfix,
    ⟨List.length_take_of_le hlen, fun a ha => (hfive a ha).1, ?_⟩, ?_⟩
  · intro a ha b hb
    have ha' := hbefore a ha
    have hb' := (hfive b hb).2
    omega
  · intro a ha
    have ha' := (hfive a ha).2
    unfold lockoutWindowMinutes at ha'
    unfold lockoutDurationMinutes
    omega

end AuthService

/-- For every history and moment the lockout is as documented. -/
def LockoutsAsDocumented (auth : AuthService Token) : Prop :=
  ∀ attempts email now, auth.LockoutAsDocumented attempts email now

section

def fiveFailures : List LoginAttempt :=
  [0, 1, 2, 3, 4].map fun minute => ⟨"carol@example.org", false, "127.0.0.1", minute * 60000000⟩

end

end ScottyCore
