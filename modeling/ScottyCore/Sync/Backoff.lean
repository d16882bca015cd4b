import ScottyCore.Sync.Cursor

namespace ScottyCore
open Python MeshSyncEngine TransitionSystem
set_option autoImplicit true

variable {b : Backend}

/-! ## `_handle_error` -/

def defaultIntervalS : Nat := 30

def maxBackoffS : Nat := 3600

def backoffMultiplier : Nat := 2

def nextBackoff (current_backoff : Nat) : Nat :=
  min (max (current_backoff * backoffMultiplier) defaultIntervalS) maxBackoffS

/-- `_handle_error`: the seconds to sleep, with the error recorded. -/
def handleError (peer_id error : String) (inst : Installation b) : Nat × Installation b :=
  match inst.sync_peers.find peer_id with
  | none => (maxBackoffS, inst)
  | some peer =>
    (nextBackoff peer.backoff_seconds,
      recordPeerError peer_id error (nextBackoff peer.backoff_seconds) inst)

/-! ## `_peer_loop` -/

/-- How a cycle ended: with everything done, with a failure anywhere in it, or with nothing to
do. -/
inductive CycleEnd where
  | succeeded | failed | skipped

/-- Where the loop stands. -/
inductive LoopPhase where
  | starting
  | pulling (since : Option DateTime)
  | applying (bundle : Bytes)
  | recordingPull
  | refetching
  | building (peer : SyncPeer)
  | pushing (peer : SyncPeer) (bundle : Bytes)
  | recordingPush
  | returning
  | failing
  | sleeping (seconds : Nat)
  | dead

/-- A node with the loop of one peer, and what no step of the loop reads back: whether a failure
was swallowed in this cycle, and how the cycles so far ended, the latest first. -/
structure LoopState (b : Backend) where
  inst : Installation b
  phase : LoopPhase
  swallowed : Bool
  ended : List CycleEnd

inductive LoopAction where
  | skip | request | respond (bundle : Bytes) | apply | recordPull (now : DateTime) | refetch
  | build (now : DateTime) | push | recordPush (now : DateTime) | finish
  | fail | handle (error : String) | die | wake | other

def storedBackoff (peer_id : String) (inst : Installation b) : Option Nat :=
  (inst.sync_peers.find peer_id).map SyncPeer.backoff_seconds

/-- A cycle is under way and may raise. -/
def LoopPhase.InCycle : LoopPhase → Prop
  | failing | sleeping _ | dead => False
  | _ => True

/-- The cycle has recorded its pull. -/
def LoopPhase.PullRecorded : LoopPhase → Prop
  | refetching | building _ | pushing .. | recordingPush | returning => True
  | _ => False

/-- A response that `_apply_bundle` can read. An empty one is not parsed. -/
def readable : Bytes → Bool
  | .empty => true
  | bundle => (extractBundle bundle).toOption.isSome

/-- One step of `_peer_loop` for a peer, or of the rest of the node. -/
inductive LoopStep (eng : MeshSyncEngine b) (interval : Nat) (peer_id : String) :
    LoopState b → LoopAction → LoopState b → Prop where
  | skip : s.phase = .starting → eng.pullSince peer_id s.inst = none →
      LoopStep eng interval peer_id s .skip
        { s with phase := .sleeping interval, ended := .skipped :: s.ended }
  | request : s.phase = .starting → eng.pullSince peer_id s.inst = some (.ok since) →
      LoopStep eng interval peer_id s .request
        { s with phase := .pulling since, swallowed := false }
  | respond : s.phase = .pulling since →
      LoopStep eng interval peer_id s (.respond bundle) { s with phase := .applying bundle }
  -- a bundle that does not parse is dropped, and the cycle goes on
  | apply : s.phase = .applying bundle →
      LoopStep eng interval peer_id s .apply
        { s with
          inst := (eng.applyBundle bundle peer_id none s.inst).2
          phase := .recordingPull
          swallowed := !readable bundle }
  | recordPull : s.phase = .recordingPull →
      LoopStep eng interval peer_id s (.recordPull now)
        { s with inst := recordPullSuccess peer_id now s.inst, phase := .refetching }
  | refetch : s.phase = .refetching → s.inst.sync_peers.find peer_id = some peer →
      LoopStep eng interval peer_id s .refetch { s with phase := .building peer }
  | refetchNone : s.phase = .refetching → s.inst.sync_peers.find peer_id = none →
      LoopStep eng interval peer_id s .refetch { s with phase := .returning }
  -- an export that fails gives no bytes, and the cycle goes on
  | build : s.phase = .building peer →
      LoopStep eng interval peer_id s (.build now)
        { s with
          inst := (eng.buildPushBundle peer now s.inst).2
          phase := .pushing peer (eng.buildPushBundle peer now s.inst).1
          swallowed := s.swallowed || !(eng.exportPushDelta peer now s.inst.db).toOption.isSome }
  | push : s.phase = .pushing peer bundle → eng.pushRequest peer bundle = some request →
      LoopStep eng interval peer_id s .push { s with phase := .recordingPush }
  | pushNone : s.phase = .pushing peer bundle → eng.pushRequest peer bundle = none →
      LoopStep eng interval peer_id s .push { s with phase := .returning }
  | recordPush : s.phase = .recordingPush →
      LoopStep eng interval peer_id s (.recordPush now)
        { s with inst := recordPushSuccess peer_id now s.inst, phase := .returning }
  | finish : s.phase = .returning →
      LoopStep eng interval peer_id s .finish
        { s with
          phase := .sleeping interval
          ended := (if s.swallowed then .failed else .succeeded) :: s.ended }
  -- a request, a session or a commit raises; what was committed before stays
  | fail : s.phase.InCycle → LoopStep eng interval peer_id s .fail { s with phase := .failing }
  | handle : s.phase = .failing →
      LoopStep eng interval peer_id s (.handle error)
        { s with
          inst := (handleError peer_id error s.inst).2
          phase := .sleeping (handleError peer_id error s.inst).1
          ended := .failed :: s.ended }
  -- the loop is cancelled, or recording the error raises
  | die : LoopStep eng interval peer_id s .die { s with phase := .dead }
  | wake : s.phase = .sleeping seconds →
      LoopStep eng interval peer_id s .wake { s with phase := .starting }
  -- everything else on the node; the peer may be deleted meanwhile
  | other : (∀ n ∈ storedBackoff peer_id inst, n ∈ storedBackoff peer_id s.inst) →
      LoopStep eng interval peer_id s .other { s with inst := inst }

/-! ## The law -/

/-- The failing cycles since the last one that fully succeeded. -/
def consecutiveFailures : List CycleEnd → Nat
  | .failed :: ended => consecutiveFailures ended + 1
  | .skipped :: ended => consecutiveFailures ended
  | .succeeded :: _ | [] => 0

/-- The backoff after `k` consecutive failures. -/
def backoffAfter : Nat → Nat
  | 0 => 0
  | k + 1 => min (30 * 2 ^ k) 3600

/-- What the last cycle left: after a failure the law's backoff, stored and slept, and none after
a full success. -/
def BackoffLaw (peer_id : String) (s : LoopState b) : Prop :=
  ∀ seconds, s.phase = .sleeping seconds → ∀ n ∈ storedBackoff peer_id s.inst,
    match s.ended with
    | .failed :: _ => n = backoffAfter (consecutiveFailures s.ended) ∧
        seconds = backoffAfter (consecutiveFailures s.ended)
    | .succeeded :: _ => n = 0
    | _ => True

/-- The condition on a step: no failure is swallowed, and one after the pull was recorded is the
first of its series. -/
def BackoffGuard (eng : MeshSyncEngine b) (s : LoopState b) : LoopAction → Prop
  | .apply => ∀ bundle, s.phase = .applying bundle → readable bundle = true
  | .build now => ∀ peer, s.phase = .building peer →
      ∃ r, eng.exportPushDelta peer now s.inst.db = .ok r
  | .fail => s.phase.PullRecorded → consecutiveFailures s.ended = 0
  | _ => True

/-- A loop is started for a new peer, or for one whose backoff follows the law so far. -/
structure LoopStart (peer_id : String) (s : LoopState b) : Prop where
  phase : s.phase = .starting
  backoff : storedBackoff peer_id s.inst = some (backoffAfter (consecutiveFailures s.ended))

/-! ## The law over all runs -/

theorem nextBackoff_backoffAfter (k : Nat) :
    nextBackoff (backoffAfter k) = backoffAfter (k + 1) := by
  rw [nextBackoff, backoffMultiplier, defaultIntervalS, maxBackoffS]
  cases k with
  | zero => rfl
  | succ k =>
    have hpow : 2 ^ (k + 1) = 2 ^ k * 2 := pow_succ 2 k
    have hpos : 0 < 2 ^ k := Nat.two_pow_pos k
    rw [backoffAfter, backoffAfter, hpow]
    omega

/-- While the peer is there, its backoff is `k`. -/
def Backed (peer_id : String) (inst : Installation b) (k : Nat) : Prop :=
  ∀ n ∈ storedBackoff peer_id inst, n = k

theorem Backed.mono (h : Backed peer_id inst k)
    (hle : ∀ n ∈ storedBackoff peer_id inst', n ∈ storedBackoff peer_id inst) :
    Backed peer_id inst' k := fun n hn => h n (hle n hn)

theorem storedBackoff_updatePeer (f : SyncPeer → SyncPeer) (hf : ∀ p, (f p).id = p.id)
    (inst : Installation b) :
    storedBackoff peer_id (updatePeer peer_id f inst) =
      (inst.sync_peers.find peer_id).map fun p => (f p).backoff_seconds := by
  rw [storedBackoff, updatePeer]
  cases hp : inst.sync_peers.find peer_id with
  | none => simp only [hp, Option.map_none]
  | some p =>
    have hid : (f p).id = peer_id := (hf p).trans (KeyedTable.key_of_find hp)
    simp only [KeyedTable.find_upsert, hid, if_true, Option.map_some]

theorem Backed.of_update (f : SyncPeer → SyncPeer) (hf : ∀ p, (f p).id = p.id)
    (inst : Installation b) (hk : ∀ p, (f p).backoff_seconds = k) :
    Backed peer_id (updatePeer peer_id f inst) k := by
  intro n hn
  rw [storedBackoff_updatePeer f hf, Option.mem_def, Option.map_eq_some_iff] at hn
  obtain ⟨p, _, rfl⟩ := hn
  exact hk p

theorem backed_recordPullSuccess (now : DateTime) (inst : Installation b) :
    Backed peer_id (recordPullSuccess peer_id now inst) 0 := by
  apply Backed.of_update
  · exact fun _ => rfl
  · exact fun _ => rfl

theorem backed_recordPushSuccess (now : DateTime) (inst : Installation b) :
    Backed peer_id (recordPushSuccess peer_id now inst) 0 := by
  apply Backed.of_update
  · exact fun _ => rfl
  · exact fun _ => rfl

theorem backed_recordPeerError (error : String) (backoff : Nat) (inst : Installation b) :
    Backed peer_id (recordPeerError peer_id error backoff inst) backoff := by
  apply Backed.of_update
  · exact fun _ => rfl
  · exact fun _ => rfl

/-- An error multiplies the backoff, and the loop sleeps as long as is stored. -/
theorem backed_handleError (error : String) {inst : Installation b}
    (h : Backed peer_id inst k) :
    ∀ n ∈ storedBackoff peer_id (handleError peer_id error inst).2,
      n = nextBackoff k ∧ (handleError peer_id error inst).1 = nextBackoff k := by
  intro n hn
  rw [handleError] at hn ⊢
  cases hp : inst.sync_peers.find peer_id with
  | none =>
    simp only [hp, storedBackoff, Option.map_none] at hn
    cases hn
  | some p =>
    have hk : p.backoff_seconds = k := h _ (by rw [storedBackoff, hp]; rfl)
    simp only [hp, hk, and_true] at hn ⊢
    exact backed_recordPeerError error (nextBackoff k) inst n hn

/-- The stored backoff is the law's until the pull is recorded, and zero from then on. -/
def LoopInv (peer_id : String) (s : LoopState b) : Prop :=
  let k := backoffAfter (consecutiveFailures s.ended)
  match s.phase with
  | .starting | .failing => Backed peer_id s.inst k
  | .pulling _ | .applying _ | .recordingPull => s.swallowed = false ∧ Backed peer_id s.inst k
  | .refetching | .building _ | .pushing .. | .recordingPush | .returning =>
    s.swallowed = false ∧ Backed peer_id s.inst 0
  | .sleeping seconds =>
    Backed peer_id s.inst k ∧
      ∀ n ∈ storedBackoff peer_id s.inst, ∀ ended, s.ended = .failed :: ended → seconds = k
  | .dead => True

theorem LoopInv.mono {s : LoopState b} (h : LoopInv peer_id s)
    (hle : ∀ n ∈ storedBackoff peer_id inst, n ∈ storedBackoff peer_id s.inst) :
    LoopInv peer_id { s with inst := inst } := by
  obtain ⟨inst', phase, swallowed, ended⟩ := s
  cases phase with
  | starting => exact Backed.mono h hle
  | failing => exact Backed.mono h hle
  | dead => trivial
  | sleeping seconds => exact ⟨h.1.mono hle, fun n hn => h.2 n (hle n hn)⟩
  | _ => exact ⟨h.1, h.2.mono hle⟩

/-- A failure leaves the law's backoff for the failures before it. -/
theorem LoopInv.fail {s : LoopState b} (h : LoopInv peer_id s) (hcycle : s.phase.InCycle)
    (hfirst : s.phase.PullRecorded → consecutiveFailures s.ended = 0) :
    Backed peer_id s.inst (backoffAfter (consecutiveFailures s.ended)) := by
  obtain ⟨inst, phase, swallowed, ended⟩ := s
  have hzero : phase.PullRecorded → Backed peer_id inst 0 →
      Backed peer_id inst (backoffAfter (consecutiveFailures ended)) := by
    intro hp hb
    rwa [hfirst hp]
  cases phase with
  | starting => exact h
  | pulling => exact h.2
  | applying => exact h.2
  | recordingPull => exact h.2
  | failing => exact hcycle.elim
  | sleeping => exact hcycle.elim
  | dead => exact hcycle.elim
  | _ => exact hzero trivial h.2

theorem LoopInv.law {s : LoopState b} (h : LoopInv peer_id s) : BackoffLaw peer_id s := by
  intro seconds hphase n hn
  rw [LoopInv, hphase] at h
  obtain ⟨hstored, hslept⟩ := h
  match hended : s.ended with
  | [] => trivial
  | .skipped :: _ => trivial
  | .succeeded :: ended =>
    rw [hended] at hstored
    exact hstored n hn
  | .failed :: ended =>
    rw [hended] at hstored hslept
    exact ⟨hstored n hn, hslept n hn ended rfl⟩

theorem loopInv_step {eng : MeshSyncEngine b} {s s' : LoopState b} (h : LoopInv peer_id s)
    (hstep : Guarded (LoopStep eng interval peer_id) (BackoffGuard eng) s a s') :
    LoopInv peer_id s' := by
  obtain ⟨hstep, hguard⟩ := hstep
  have hp := h
  cases hstep with
  | skip hphase =>
    rw [LoopInv, hphase] at hp
    exact ⟨hp, fun _ _ _ hended => by cases hended⟩
  | request hphase =>
    rw [LoopInv, hphase] at hp
    exact ⟨rfl, hp⟩
  | respond hphase =>
    rw [LoopInv, hphase] at hp
    exact hp
  | apply hphase =>
    rw [LoopInv, hphase] at hp
    refine ⟨by rw [hguard _ hphase]; rfl, hp.2.mono ?_⟩
    intro n hn
    rwa [storedBackoff, (applyBundle_sync _ peer_id none s.inst).1.1] at hn
  | recordPull hphase =>
    rw [LoopInv, hphase] at hp
    exact ⟨hp.1, backed_recordPullSuccess _ s.inst⟩
  | refetch hphase =>
    rw [LoopInv, hphase] at hp
    exact hp
  | refetchNone hphase =>
    rw [LoopInv, hphase] at hp
    exact hp
  | build hphase =>
    rw [LoopInv, hphase] at hp
    obtain ⟨r, hr⟩ := hguard _ hphase
    refine ⟨?_, hp.2.mono ?_⟩
    · simp only [hp.1, hr]
      rfl
    · intro n hn
      rw [buildPushBundle, hr] at hn
      exact hn
  | push hphase =>
    rw [LoopInv, hphase] at hp
    exact hp
  | pushNone hphase =>
    rw [LoopInv, hphase] at hp
    exact hp
  | recordPush hphase =>
    rw [LoopInv, hphase] at hp
    exact ⟨hp.1, backed_recordPushSuccess _ s.inst⟩
  | finish hphase =>
    rw [LoopInv, hphase] at hp
    simp only [hp.1]
    exact ⟨hp.2, fun _ _ _ hended => by cases hended⟩
  | fail hcycle => exact h.fail hcycle hguard
  | handle hphase =>
    rename_i error
    rw [LoopInv, hphase] at hp
    have hraised := backed_handleError error hp
    simp only [nextBackoff_backoffAfter] at hraised
    exact ⟨fun n hn => (hraised n hn).1, fun n hn _ _ => (hraised n hn).2⟩
  | die => trivial
  | wake hphase =>
    rw [LoopInv, hphase] at hp
    exact hp.1
  | other hle => exact h.mono hle

/-- In every run of cycles in which no failure is swallowed and a failure after the recorded pull
is the first of its series, the backoff follows the law. -/
theorem backoff_law {eng : MeshSyncEngine b} {s₀ s : LoopState b} (h₀ : LoopStart peer_id s₀)
    (hrun : Run (Guarded (LoopStep eng interval peer_id) (BackoffGuard eng)) s₀ as s) :
    BackoffLaw peer_id s := by
  refine (hrun.invariant (I := LoopInv peer_id) ?_ loopInv_step).law
  rw [LoopInv, h₀.phase]
  intro n hn
  rw [h₀.backoff] at hn
  exact (Option.some.inj hn).symm

/-! ## A peer that refuses every push -/

section

variable {eng : MeshSyncEngine b} {s : LoopState b}

def LoopState.failed (peer_id error : String) (s : LoopState b) : LoopState b :=
  { s with
    inst := (handleError peer_id error s.inst).2
    phase := .sleeping (handleError peer_id error s.inst).1
    ended := .failed :: s.ended }

/-- A cycle whose pull request raises. -/
theorem refusedPull_run (error : String) (hphase : s.phase = .starting)
    (hsince : eng.pullSince peer_id s.inst = some (.ok since)) :
    Run (Guarded (LoopStep eng interval peer_id) (BackoffGuard eng)) s
      [.request, .fail, .handle error]
      (LoopState.failed peer_id error { s with swallowed := false }) := by
  have h₁ : Guarded (LoopStep eng interval peer_id) (BackoffGuard eng) s .request
      { s with phase := .pulling since, swallowed := false } :=
    ⟨.request hphase hsince, trivial⟩
  have h₂ : Guarded (LoopStep eng interval peer_id) (BackoffGuard eng)
      { s with phase := .pulling since, swallowed := false } .fail
      { s with phase := .failing, swallowed := false } := ⟨.fail trivial, fun h => h.elim⟩
  exact .snoc (.snoc (.single h₁) h₂) ⟨.handle rfl, trivial⟩

/-- The peer's row after a cycle that pulled and whose push request raised. -/
def SyncPeer.pushRefused (now : DateTime) (error : String) (peer : SyncPeer) : SyncPeer :=
  { peer with
    last_pulled_ts := some now
    last_error := some error
    backoff_seconds := defaultIntervalS }

theorem find_updatePeer (f : SyncPeer → SyncPeer) (hid : (f p).id = p.id) {inst : Installation b}
    (hp : inst.sync_peers.find peer_id = some p) :
    (updatePeer peer_id f inst).sync_peers.find peer_id = some (f p) := by
  have hkey : (f p).id = peer_id := hid.trans (KeyedTable.key_of_find hp)
  simp only [updatePeer, hp, KeyedTable.find_upsert, hkey, if_true]

theorem buildPushBundle_peers (peer : SyncPeer) (now : DateTime) (inst : Installation b) :
    (eng.buildPushBundle peer now inst).2.sync_peers = inst.sync_peers := by
  rw [buildPushBundle]
  cases eng.exportPushDelta peer now inst.db <;> rfl

/-- A cycle that pulls and whose push request raises starts the backoff anew. -/
theorem refusedPush_run (eng : MeshSyncEngine b) (interval : Nat) (bundle : Bytes)
    (now : DateTime) (error : String)
    (hphase : s.phase = .starting) (hsince : eng.pullSince peer_id s.inst = some (.ok since))
    (hp : s.inst.sync_peers.find peer_id = some p) :
    ∃ s', Run (LoopStep eng interval peer_id) s
        [.request, .respond bundle, .apply, .recordPull now, .refetch, .build now, .fail,
          .handle error] s' ∧
      s'.phase = .sleeping defaultIntervalS ∧ s'.ended = .failed :: s.ended ∧
      s'.inst.sync_peers.find peer_id = some (p.pushRefused now error) := by
  let applied := (eng.applyBundle bundle peer_id none s.inst).2
  have hpulled : (recordPullSuccess peer_id now applied).sync_peers.find peer_id =
      some { p with last_pulled_ts := some now, last_error := none, backoff_seconds := 0 } := by
    apply find_updatePeer
    · rfl
    · rwa [(applyBundle_sync bundle peer_id none s.inst).1.1]
  let peer := { p with last_pulled_ts := some now, last_error := none, backoff_seconds := 0 }
  let built := (eng.buildPushBundle peer now (recordPullSuccess peer_id now applied)).2
  have hbuilt : built.sync_peers.find peer_id = some peer := by
    rwa [buildPushBundle_peers]
  have hhandled : handleError peer_id error built =
      (defaultIntervalS, recordPeerError peer_id error defaultIntervalS built) := by
    rw [handleError, hbuilt]
    rfl
  have hrun : Run (LoopStep eng interval peer_id) s
      [.request, .respond bundle, .apply, .recordPull now, .refetch, .build now] _ :=
    .snoc (.snoc (.snoc (.snoc (.snoc (.single (.request hphase hsince)) (.respond rfl))
      (.apply rfl)) (.recordPull rfl)) (.refetch rfl hpulled)) (.build rfl)
  have hcycle : (LoopPhase.pushing peer
      (eng.buildPushBundle peer now (recordPullSuccess peer_id now applied)).1).InCycle := trivial
  refine ⟨_, .snoc (.snoc hrun (.fail hcycle)) (.handle rfl), ?_, rfl, ?_⟩
  · exact congrArg (fun r => LoopPhase.sleeping r.1) hhandled
  · change (handleError peer_id error built).2.sync_peers.find peer_id = _
    rw [hhandled]
    exact find_updatePeer (p := peer) _ rfl hbuilt

end

/-- In every run of cycles the backoff follows the law. -/
def BackoffFollows (eng : MeshSyncEngine b) (interval : Nat) (peer_id : String) : Prop :=
  ∀ s₀ as s, LoopStart peer_id s₀ → Run (LoopStep eng interval peer_id) s₀ as s →
    BackoffLaw peer_id s

def loopStart : LoopState .sqlite := ⟨pullStart.inst, .starting, false, []⟩

theorem loopStart_ok : LoopStart "peer" loopStart := ⟨rfl, rfl⟩

/-- Two refused pulls in a row. -/
theorem backoff_law_refused : ∃ as s,
    Run (Guarded (LoopStep pullEngine 30 "peer") (BackoffGuard pullEngine)) loopStart as s ∧
      consecutiveFailures s.ended = 2 ∧ s.phase = .sleeping 60 ∧ BackoffLaw "peer" s := by
  let slept := LoopState.failed "peer" "refused" loopStart
  have h₁ : Run (Guarded (LoopStep pullEngine 30 "peer") (BackoffGuard pullEngine)) loopStart
      [.request, .fail, .handle "refused"] slept := refusedPull_run "refused" rfl rfl
  have h₂ : Run (Guarded (LoopStep pullEngine 30 "peer") (BackoffGuard pullEngine)) slept
      [.wake] { slept with phase := .starting } := .single ⟨.wake rfl, trivial⟩
  have h₃ : Run (Guarded (LoopStep pullEngine 30 "peer") (BackoffGuard pullEngine))
      { slept with phase := .starting } [.request, .fail, .handle "refused"]
      (LoopState.failed "peer" "refused" { slept with phase := .starting }) :=
    refusedPull_run "refused" rfl rfl
  have hrun := (h₁.append h₂).append h₃
  exact ⟨_, _, hrun, rfl, rfl, backoff_law loopStart_ok hrun⟩

theorem pullSince_served {inst : Installation .sqlite}
    (hp : inst.sync_peers.find "peer" = some p) (henabled : p.enabled = true)
    (hkey : p.their_key_for_us = some "key") :
    pullEngine.pullSince "peer" inst = some (sinceOf p.last_pulled_ts) := by
  simp only [pullSince, hp, henabled, hkey]
  rfl

/-- A peer that serves every pull and refuses every push is tried every thirty seconds. -/
theorem backoff_stuck : ¬ BackoffFollows pullEngine 30 "peer" := by
  intro h
  obtain ⟨s₁, hrun₁, hphase₁, hended₁, hp₁⟩ := refusedPush_run pullEngine 30 (s := loopStart)
    (aliceBundle (alice "Alice" noon)) noonUtc "refused" rfl
    (pullSince_served (p := freshPeer) rfl rfl rfl) rfl
  have hsince := pullSince_served hp₁ rfl rfl
  obtain ⟨since, hts⟩ : ∃ since, sinceOf (some noonUtc) = .ok since := by
    have hok : (sinceOf (some noonUtc)).toOption.isSome = true := by decide +kernel
    cases hs : sinceOf (some noonUtc) with
    | ok since => exact ⟨since, rfl⟩
    | error e =>
      rw [hs] at hok
      cases hok
  have hwake : LoopStep pullEngine 30 "peer" s₁ .wake { s₁ with phase := .starting } :=
    .wake hphase₁
  obtain ⟨s₂, hrun₂, hphase₂, hended₂, hp₂⟩ := refusedPush_run pullEngine 30
    (s := { s₁ with phase := .starting }) (aliceBundle (alice "Alice" noon)) noonUtc "refused" rfl
    (hsince.trans (congrArg some hts)) hp₁
  have hlaw := h _ _ _ loopStart_ok ((hrun₁.snoc hwake).append hrun₂) _ hphase₂ 30
    (by rw [storedBackoff, hp₂]; rfl)
  rw [hended₂, hended₁] at hlaw
  cases hlaw.1

end ScottyCore
