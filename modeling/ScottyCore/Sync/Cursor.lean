import Mathlib.Data.Int.ConditionallyCompleteOrder
import ScottyCore.Lib.History
import ScottyCore.Lib.Run
import ScottyCore.Sync.Pull
import ScottyCore.Sync.Stale

namespace ScottyCore
open Python MeshSyncEngine TransitionSystem History
set_option autoImplicit true

variable {b : Backend}

/-! ## The pull half of `_sync_cycle` -/

/-- The start of `_sync_cycle`: whether the cycle pulls from a peer, and since when. -/
def MeshSyncEngine.pullSince (eng : MeshSyncEngine b) (peer_id : String) (inst : Installation b) :
    Option (Except Exc (Option DateTime)) :=
  match inst.sync_peers.find peer_id with
  | none => none
  | some peer =>
    if !peer.enabled then none
    else
      match peer.their_key_for_us with
      | none | some "" => none
      | some key =>
        match eng.decrypt_their_key key with
        | none | some "" => none
        | some _ => some (sinceOf peer.last_pulled_ts)

def pulledTs (peer_id : String) (inst : Installation b) : Option DateTime :=
  (inst.sync_peers.find peer_id).bind SyncPeer.last_pulled_ts

/-- A version of a row on the peer, as the peer exports it. -/
structure PeerVersion where
  contributor_id : String
  row : Dict
  updated_at : DateTime
  stamped : parseTs (row.get "updated_at") = some updated_at

abbrev PeerVersion.key (v : PeerVersion) : String × String := (v.contributor_id, rowId v.row)

abbrev PeerVersion.stamp (v : PeerVersion) : Int := v.updated_at.instant

/-- A version of the peer's history that a request covers. -/
def Due (since : Option DateTime) (v : PeerVersion) : Prop :=
  ∀ ts ∈ since, ts.instant ≤ v.stamp

/-- A bundle carries a row under its contributor. -/
def CarriesRow (bundle : Bytes) (cid : String) (row : Dict) : Prop :=
  ∃ payload ∈ payloadsOf bundle, payload.1 = cid ∧ row ∈ payload.2

/-- Of the rows with an `updated_at`, the bundle carries exactly those that the peer holds and
that changed since. -/
def Serves (history : List PeerVersion) (since : Option DateTime) (bundle : Bytes) : Prop :=
  ∀ cid row, (parseTs (row.get "updated_at")).isSome = true →
    (CarriesRow bundle cid row ↔ ∃ v, Latest PeerVersion.key history v ∧ Due since v ∧
      v.contributor_id = cid ∧ v.row = row)

/-- Where a cycle stands. What the peer served is remembered with the history of that moment. -/
inductive PullPhase where
  | idle
  | requested (since : Option DateTime)
  | fetched (since : Option DateTime) (served : List PeerVersion) (bundle : Bytes)
  | applied (since : Option DateTime) (served : List PeerVersion)

/-- A node that pulls, the clocks of both nodes in microseconds, and two histories that no step
reads back: the versions the peer ever held, and the outcomes of the rows it sent. -/
structure PullState (b : Backend) where
  inst : Installation b
  phase : PullPhase
  clock : Int
  peer_clock : Int
  history : List PeerVersion
  log : Log

inductive PullAction where
  | tick | write (v : PeerVersion) | other | request | respond (bundle : Bytes) | fail | apply
  | record (now : DateTime)

def skewMicros : Int := clockSkewToleranceS * 1000000

/-- One step of a pull cycle, of the peer, of the clocks or of the rest of the node. -/
inductive PullStep (eng : MeshSyncEngine b) (peer_id : String) :
    PullState b → PullAction → PullState b → Prop where
  | tick : s.clock ≤ clock → s.peer_clock ≤ peer_clock → |clock - peer_clock| ≤ skewMicros →
      PullStep eng peer_id s .tick { s with clock := clock, peer_clock := peer_clock }
  -- a write stamps the row with the peer's clock
  | write : v.stamp = s.peer_clock →
      PullStep eng peer_id s (.write v) { s with history := s.history ++ [v] }
  -- local writes, pushes, cycles with other peers
  | other : pulledTs peer_id inst = pulledTs peer_id s.inst →
      s.inst.sync_conflicts ⊆ inst.sync_conflicts →
      PullStep eng peer_id s .other { s with inst := inst }
  | request : s.phase = .idle → eng.pullSince peer_id s.inst = some (.ok since) →
      PullStep eng peer_id s .request { s with phase := .requested since }
  -- what arrives is what the peer served, or does not parse
  | respond : s.phase = .requested since →
      Serves s.history since bundle ∨ (∃ e, extractBundle bundle = .error e) →
      PullStep eng peer_id s (.respond bundle) { s with phase := .fetched since s.history bundle }
  | fail : s.phase = .requested since → PullStep eng peer_id s .fail { s with phase := .idle }
  | apply : s.phase = .fetched since served bundle →
      PullStep eng peer_id s .apply
        { s with
          inst := (eng.applyBundle bundle peer_id none s.inst).2
          phase := .applied since served
          log := s.log ++ (eng.applyBundle bundle peer_id none s.inst).1 }
  | record : s.phase = .applied since served → now.instant = s.clock →
      PullStep eng peer_id s (.record now)
        { s with inst := recordPullSuccess peer_id now s.inst, phase := .idle }

/-! ## What the cursor promises -/

/-- The version was written into its table. -/
def Written (log : Log) (v : PeerVersion) : Prop :=
  (v.contributor_id, v.row, .applied) ∈ log ∧ ∃ m, route v.contributor_id v.row = .ok (some m)

/-- The version was applied, or superseded by a newer version that was, or recorded as a
conflict. -/
def PullState.Settles (peer_id : String) (s : PullState b) : PeerVersion → Prop :=
  Settled PeerVersion.key (Written s.log)
    (fun v => Recorded peer_id v.contributor_id v.row s.inst) s.history

/-- Every version of the peer below the cursor less the tolerance is settled. -/
def CursorSafe (peer_id : String) (s : PullState b) : Prop :=
  ∀ ts ∈ pulledTs peer_id s.inst, ∀ v ∈ s.history, v.stamp < ts.instant - skewMicros →
    s.Settles peer_id v

/-- No row of the response is left out: the bundle parses, each row's contributor is registered
and has a table for it, the origin filter keeps it, the timestamps compare and its restore does
not raise; and a row that the stored one beats is the only version since the last pull. -/
def Transferred (eng : MeshSyncEngine b) (peer_id : String) (since : Option DateTime)
    (served : List PeerVersion) (bundle : Bytes) (inst : Installation b) : Prop :=
  ∀ v, Latest PeerVersion.key served v → Due since v →
    (∃ r, extractBundle bundle = .ok r) ∧
    (∃ c, eng.backup.contributors.find v.contributor_id = some c) ∧
    (∃ m, route v.contributor_id v.row = .ok (some m)) ∧
    ∀ o, (v.contributor_id, v.row, o) ∈ (eng.applyBundle bundle peer_id none inst).1 →
      o = .applied ∨ (o = .conflict ∧ ∀ u, After served u v → u.key = v.key → ¬ Due since u)

/-- The condition on a step: a response is transferred whole, and nothing that the peer wrote
after it served the request is older than the new cursor less the tolerance. -/
def PullGuard (eng : MeshSyncEngine b) (peer_id : String) (s : PullState b) : PullAction → Prop
  | .apply => ∀ since served bundle, s.phase = .fetched since served bundle →
      Transferred eng peer_id since served bundle s.inst
  | .record now => ∀ since served, s.phase = .applied since served →
      ∀ v ∈ s.history.drop served.length, now.instant - skewMicros ≤ v.stamp
  | _ => True

/-- A node that has not pulled from the peer yet. -/
structure PullStart (peer_id : String) (s : PullState b) : Prop where
  phase : s.phase = .idle
  cursor : pulledTs peer_id s.inst = none
  clocks : |s.clock - s.peer_clock| ≤ skewMicros
  chronological : Chronological PeerVersion.stamp s.history
  past : ∀ v ∈ s.history, v.stamp ≤ s.peer_clock

/-! ## Every run -/

theorem sinceOf_instant (h : sinceOf (some ts) = .ok (some since)) :
    since.instant = ts.instant - skewMicros := by
  rw [sinceOf] at h
  generalize hadd : ts.add (-clockSkewToleranceS * 1000000) = r at h
  cases r with
  | error e => cases h
  | ok t =>
    cases h
    rw [DateTime.instant_add hadd, skewMicros, neg_mul]
    rfl

theorem sinceOf_pulledTs {eng : MeshSyncEngine b} {inst : Installation b}
    (h : eng.pullSince peer_id inst = some (.ok since)) :
    sinceOf (pulledTs peer_id inst) = .ok since := by
  unfold MeshSyncEngine.pullSince at h
  unfold pulledTs
  split at h
  · cases h
  · rename_i peer hfind
    rw [hfind]
    split at h
    · cases h
    · split at h
      · cases h
      · cases h
      · split at h
        · cases h
        · cases h
        · exact Option.some.inj h

theorem pulledTs_recordPullSuccess {inst : Installation b}
    (h : ts ∈ pulledTs peer_id (recordPullSuccess peer_id now inst)) : ts = now := by
  unfold recordPullSuccess updatePeer pulledTs at h
  cases hfind : inst.sync_peers.find peer_id with
  | none =>
    rw [hfind] at h
    simp only [hfind] at h
    cases h
  | some peer =>
    have hid : peer.id = peer_id := KeyedTable.key_of_find hfind
    rw [hfind] at h
    subst hid
    have hself := inst.sync_peers.find_upsert_self
      { peer with last_pulled_ts := some now, last_error := none, backoff_seconds := 0 }
    change (inst.sync_peers.upsert _).find peer.id = _ at hself
    simp only [hself] at h
    exact (Option.some.inj h).symm

theorem sync_conflicts_recordPullSuccess {inst : Installation b} :
    (recordPullSuccess peer_id now inst).sync_conflicts = inst.sync_conflicts := by
  unfold recordPullSuccess updatePeer
  split
  · rfl
  · rfl

/-- What is logged, recorded or written stays so. -/
structure Grows (s s' : PullState b) : Prop where
  log : s.log ⊆ s'.log
  conflicts : s.inst.sync_conflicts ⊆ s'.inst.sync_conflicts
  history : s.history <+: s'.history

theorem PullState.Settles.mono {s s' : PullState b} (h : s.Settles peer_id v)
    (hg : Grows s s') : s'.Settles peer_id v := by
  obtain ⟨newer, hnewer⟩ := hg.history
  rw [PullState.Settles, ← hnewer]
  refine Settled.mono h ?_ ?_ newer
  · rintro w ⟨hw, hm⟩
    exact ⟨hg.log hw, hm⟩
  · intro w hw
    exact hw.mono hg.conflicts

variable {eng : MeshSyncEngine b}

theorem PullStep.grows {s s' : PullState b} (h : PullStep eng peer_id s a s') : Grows s s' := by
  have hlog := List.Subset.refl s.log
  have hinst := List.Subset.refl s.inst.sync_conflicts
  have hhist := List.prefix_rfl (l := s.history)
  cases h with
  | tick => exact ⟨hlog, hinst, hhist⟩
  | write => exact ⟨hlog, hinst, List.prefix_append _ _⟩
  | other _ hc => exact ⟨hlog, hc, hhist⟩
  | request => exact ⟨hlog, hinst, hhist⟩
  | respond => exact ⟨hlog, hinst, hhist⟩
  | fail => exact ⟨hlog, hinst, hhist⟩
  | apply =>
    exact ⟨List.subset_append_left _ _, (applyBundle_sync _ peer_id none s.inst).1.2, hhist⟩
  | record => exact ⟨hlog, sync_conflicts_recordPullSuccess ▸ hinst, hhist⟩

/-- What a phase of the cycle knows. -/
def PhaseInv (peer_id : String) (s : PullState b) : PullPhase → Prop
  | .idle => True
  | .requested since => sinceOf (pulledTs peer_id s.inst) = .ok since
  | .fetched since served bundle =>
    sinceOf (pulledTs peer_id s.inst) = .ok since ∧ served <+: s.history ∧
      (Serves served since bundle ∨ ∃ e, extractBundle bundle = .error e)
  | .applied _ served => served <+: s.history ∧ ∀ v ∈ served, s.Settles peer_id v

structure PullInv (peer_id : String) (s : PullState b) : Prop where
  chronological : Chronological PeerVersion.stamp s.history
  past : ∀ v ∈ s.history, v.stamp ≤ s.peer_clock
  clocks : |s.clock - s.peer_clock| ≤ skewMicros
  cursor : ∀ ts ∈ pulledTs peer_id s.inst, ts.instant ≤ s.clock
  safe : CursorSafe peer_id s
  phase : PhaseInv peer_id s s.phase

theorem PhaseInv.mono {s s' : PullState b} {phase : PullPhase} (h : PhaseInv peer_id s phase)
    (hg : Grows s s') (hts : pulledTs peer_id s'.inst = pulledTs peer_id s.inst) :
    PhaseInv peer_id s' phase := by
  cases phase with
  | idle => trivial
  | requested since => exact (congrArg sinceOf hts).trans h
  | fetched since served bundle =>
    exact ⟨(congrArg sinceOf hts).trans h.1, h.2.1.trans hg.history, h.2.2⟩
  | applied since served => exact ⟨h.1.trans hg.history, fun v hv => (h.2 v hv).mono hg⟩

theorem CursorSafe.mono {s s' : PullState b} (h : CursorSafe peer_id s) (hg : Grows s s')
    (hts : pulledTs peer_id s'.inst = pulledTs peer_id s.inst)
    (hnew : ∀ ts ∈ pulledTs peer_id s.inst, ∀ v ∈ s'.history,
      v ∈ s.history ∨ ts.instant - skewMicros ≤ v.stamp) : CursorSafe peer_id s' := by
  intro ts hcur v hv hlt
  rw [hts] at hcur
  rcases hnew ts hcur v hv with hv | hge
  · exact (h ts hcur v hv hlt).mono hg
  · exact (not_lt.2 hge hlt).elim

theorem due_after {since : Option DateTime} {served : List PeerVersion}
    (hc : Chronological PeerVersion.stamp served) (h : After served u w) (hu : Due since u) :
    Due since w :=
  fun ts hts => (hu ts hts).trans (h.stamp_le hc)

theorem settles_of_transferred {s : PullState b} {served : List PeerVersion}
    (hc : Chronological PeerVersion.stamp served)
    (hserves : Serves served since bundle ∨ ∃ e, extractBundle bundle = .error e)
    (ht : Transferred eng peer_id since served bundle s.inst) (hv : v ∈ served)
    (hd : Due since v) :
    Settled PeerVersion.key (Written (s.log ++ (eng.applyBundle bundle peer_id none s.inst).1))
      (fun v => Recorded peer_id v.contributor_id v.row
        (eng.applyBundle bundle peer_id none s.inst).2) served v := by
  refine settled_of_latest (fun u w ha hu => due_after hc ha hu) ?_ hv hd
  intro w hw hdue
  obtain ⟨⟨r, hparse⟩, ⟨c, hfind⟩, hroute, hout⟩ := ht w hw hdue
  have hserves : Serves served since bundle := by
    rcases hserves with h | ⟨e, he⟩
    · exact h
    · rw [hparse] at he
      cases he
  have hstamped : (parseTs (w.row.get "updated_at")).isSome = true := by
    rw [w.stamped]
    rfl
  obtain ⟨payload, hp, hcid, hrow⟩ := (hserves _ _ hstamped).2 ⟨w, hw, hdue, rfl, rfl⟩
  obtain ⟨o, ho⟩ := exists_outcome peer_id "unknown" hp hrow
    (hcid ▸ hfind) s.inst
  rw [hcid] at ho
  have ho' : (w.contributor_id, w.row, o) ∈ (eng.applyBundle bundle peer_id none s.inst).1 := by
    rw [applyBundle_eq]
    exact ho
  rcases hout o ho' with rfl | ⟨rfl, hnone⟩
  · exact .inl ⟨List.mem_append_right _ ho', hroute⟩
  · exact .inr ⟨(applyBundle_sync bundle peer_id none s.inst).2 _ ho' rfl, hnone⟩

theorem PullInv.setPhase {s : PullState b} (h : PullInv peer_id s) (phase : PullPhase)
    (hp : PhaseInv peer_id s phase) : PullInv peer_id { s with phase := phase } where
  chronological := h.chronological
  past := h.past
  clocks := h.clocks
  cursor := h.cursor
  safe := h.safe
  phase := by
    cases phase with
    | idle => trivial
    | requested since => exact hp
    | fetched since served bundle => exact hp
    | applied since served => exact hp

/-- The peer stamps a version with its clock, which lags the cursor by the tolerance at most. -/
theorem pullInv_write {s : PullState b} (h : PullInv peer_id s) (hstamp : v.stamp = s.peer_clock)
    (hg : Grows s { s with history := s.history ++ [v] }) :
    PullInv peer_id { s with history := s.history ++ [v] } := by
  have hpast : ∀ u ∈ s.history, u.stamp ≤ v.stamp := fun u hu => (h.past u hu).trans hstamp.ge
  have hphase : PhaseInv peer_id { s with history := s.history ++ [v] } s.phase :=
    h.phase.mono hg rfl
  refine ⟨h.chronological.concat hpast, ?_, h.clocks, h.cursor, ?_, hphase⟩
  · intro u hu
    rcases List.mem_append.1 hu with hu | hu
    · exact h.past u hu
    · rw [List.mem_singleton.1 hu]
      exact hstamp.le
  · apply h.safe.mono hg rfl
    intro ts hts u hu
    rcases List.mem_append.1 hu with hu | hu
    · exact .inl hu
    · right
      rw [List.mem_singleton.1 hu, hstamp]
      have hcur := h.cursor ts hts
      have hskew := (abs_le.1 h.clocks).2
      omega

theorem pullInv_apply {s : PullState b} (h : PullInv peer_id s)
    (hphase : s.phase = .fetched since served bundle)
    (ht : Transferred eng peer_id since served bundle s.inst) :
    let r := eng.applyBundle bundle peer_id none s.inst
    let s' := { s with inst := r.2, phase := .applied since served, log := s.log ++ r.1 }
    Grows s s' → PullInv peer_id s' := by
  intro r s' hg
  have hts : pulledTs peer_id s'.inst = pulledTs peer_id s.inst := by
    have hpeers : r.2.sync_peers = s.inst.sync_peers :=
      (applyBundle_sync bundle peer_id none s.inst).1.1
    change (r.2.sync_peers.find peer_id).bind _ = _
    rw [hpeers]
    rfl
  have hp := h.phase
  rw [hphase] at hp
  obtain ⟨hsince, ⟨newer, hnewer⟩, hserves⟩ := hp
  have hchron : Chronological PeerVersion.stamp served :=
    List.Pairwise.sublist (hnewer ▸ List.sublist_append_left served newer) h.chronological
  refine ⟨h.chronological, h.past, h.clocks, fun ts hcur => h.cursor ts (hts ▸ hcur),
    h.safe.mono hg hts fun _ _ v hv => .inl hv, ⟨newer, hnewer⟩, ?_⟩
  intro v hv
  by_cases hd : Due since v
  · have hsettled := settles_of_transferred hchron hserves ht hv hd
    have hmono := hsettled.mono (fun _ h => h) (fun _ h => h) newer
    rwa [hnewer] at hmono
  · -- a version before `since` was below the old cursor
    cases since with
    | none => exact (hd fun _ hts => by cases hts).elim
    | some since =>
      cases hcur : pulledTs peer_id s.inst with
      | none =>
        rw [hcur] at hsince
        cases hsince
      | some ts =>
        rw [hcur] at hsince
        have hinstant := sinceOf_instant hsince
        have hlt : v.stamp < ts.instant - skewMicros := by
          rw [← hinstant]
          by_contra hge
          apply hd
          intro t ht
          cases ht
          exact not_lt.1 hge
        have hmem : v ∈ s.history := hnewer ▸ List.mem_append_left newer hv
        exact (h.safe ts hcur v hmem hlt).mono hg

theorem pullInv_record {s : PullState b} (h : PullInv peer_id s)
    (hphase : s.phase = .applied since served) (hnow : now.instant = s.clock)
    (hlate : ∀ v ∈ s.history.drop served.length, now.instant - skewMicros ≤ v.stamp) :
    let s' := { s with inst := recordPullSuccess peer_id now s.inst, phase := .idle }
    Grows s s' → PullInv peer_id s' := by
  intro s' hg
  have hp := h.phase
  rw [hphase] at hp
  obtain ⟨⟨newer, hnewer⟩, hsettled⟩ := hp
  refine ⟨h.chronological, h.past, h.clocks, ?_, ?_, trivial⟩
  · intro ts hts
    rw [pulledTs_recordPullSuccess hts]
    exact hnow.le
  · intro ts hts v hv hlt
    rw [pulledTs_recordPullSuccess hts] at hlt
    rw [← hnewer, List.drop_left] at hlate
    change v ∈ s.history at hv
    rw [← hnewer] at hv
    rcases List.mem_append.1 hv with hv | hv
    · exact (hsettled v hv).mono hg
    · exact (not_lt.2 (hlate v hv) hlt).elim

theorem pullInv_step {s s' : PullState b} (h : PullInv peer_id s)
    (hstep : Guarded (PullStep eng peer_id) (PullGuard eng peer_id) s a s') :
    PullInv peer_id s' := by
  obtain ⟨hstep, hguard⟩ := hstep
  have hg := hstep.grows
  have hp := h.phase
  cases hstep with
  | tick hclock hpeer hskew =>
    refine ⟨h.chronological, fun v hv => (h.past v hv).trans hpeer, hskew,
      fun ts hts => (h.cursor ts hts).trans hclock, ?_, h.phase.mono hg rfl⟩
    exact h.safe.mono hg rfl fun _ _ v hv => .inl hv
  | write hstamp => exact pullInv_write h hstamp hg
  | other hts hc =>
    exact ⟨h.chronological, h.past, h.clocks, fun ts hcur => h.cursor ts (hts ▸ hcur),
      h.safe.mono hg hts fun _ _ v hv => .inl hv, h.phase.mono hg hts⟩
  | request hidle hsince => exact h.setPhase (.requested _) (sinceOf_pulledTs hsince)
  | respond hreq hbundle =>
    rw [hreq] at hp
    exact h.setPhase (.fetched _ _ _) ⟨hp, List.prefix_rfl, hbundle⟩
  | fail hreq => exact h.setPhase .idle trivial
  | apply hfetched => exact pullInv_apply h hfetched (hguard _ _ _ hfetched) hg
  | record happlied hnow => exact pullInv_record h happlied hnow (hguard _ _ happlied) hg

section

def pullEngine : MeshSyncEngine .sqlite :=
  MeshSyncEngine.standard ⟨singletonId, "node"⟩ "app" "1.0" none some

def aliceAtNoon : PeerVersion :=
  ⟨"users", withTag "users" (rowToDict (alice "Alice" noon)), noon,
    parseTs_carried (carries_withTag "users" (alice "Alice" noon)) rfl⟩

def pullStart : PullState .sqlite where
  inst := { installationOf (alice "Alice" morning) with
    sync_peers := (∅ : KeyedTable SyncPeer SyncPeer.id).upsert freshPeer }
  phase := .idle
  clock := noon.val.instant
  peer_clock := noon.val.instant
  history := [aliceAtNoon]
  log := []

theorem pullStart_ok : PullStart "peer" pullStart where
  phase := rfl
  cursor := rfl
  clocks := by decide
  chronological := List.pairwise_singleton _ _
  past v hv := by rw [List.mem_singleton.1 hv]; exact le_rfl

def noonUtc : DateTime := ⟨2024, 6, 1, 12, 0, 0, 0, some 0, by decide⟩

def eveningUtc : DateTime := ⟨2024, 6, 1, 18, 0, 0, 0, some 0, by decide⟩

def aliceFetched (bundle : Bytes) : PullState .sqlite :=
  { pullStart with phase := .fetched none [aliceAtNoon] bundle }

def aliceApplied (bundle : Bytes) : PullState .sqlite :=
  { pullStart with
    inst := (pullEngine.applyBundle bundle "peer" none pullStart.inst).2
    phase := .applied none [aliceAtNoon]
    log := (pullEngine.applyBundle bundle "peer" none pullStart.inst).1 }

def alicePulled (bundle : Bytes) (now : DateTime) : PullState .sqlite :=
  { aliceApplied bundle with
    inst := recordPullSuccess "peer" now (aliceApplied bundle).inst
    phase := .idle
    clock := now.instant
    peer_clock := now.instant }

theorem pull_run (G : PullState .sqlite → PullAction → Prop)
    (bundle : Bytes) (now : DateTime)
    (hb : Serves [aliceAtNoon] none bundle ∨ ∃ e, extractBundle bundle = .error e)
    (hnow : noon.val.instant ≤ now.instant) (happly : G (aliceFetched bundle) .apply)
    (hrecord : ∀ s, s.phase = .applied none [aliceAtNoon] → s.history = [aliceAtNoon] →
      G s (.record now))
    (hother : ∀ s, G s .request ∧ G s (.respond bundle) ∧ G s .tick) :
    Run (Guarded (PullStep pullEngine "peer") G) pullStart
      [.request, .respond bundle, .apply, .tick, .record now] (alicePulled bundle now) := by
  have hskew : |now.instant - now.instant| ≤ skewMicros := by
    rw [sub_self]
    decide
  have h₁ : Guarded (PullStep pullEngine "peer") G pullStart .request
      { pullStart with phase := .requested none } :=
    ⟨.request rfl rfl, (hother _).1⟩
  have h₂ : Guarded (PullStep pullEngine "peer") G { pullStart with phase := .requested none }
      (.respond bundle) (aliceFetched bundle) := ⟨.respond rfl hb, (hother _).2.1⟩
  have h₃ : Guarded (PullStep pullEngine "peer") G (aliceFetched bundle) .apply
      (aliceApplied bundle) :=
    ⟨.apply rfl, happly⟩
  have h₄ : Guarded (PullStep pullEngine "peer") G (aliceApplied bundle) .tick
      { aliceApplied bundle with clock := now.instant, peer_clock := now.instant } :=
    ⟨.tick hnow hnow hskew, (hother _).2.2⟩
  have h₅ : Guarded (PullStep pullEngine "peer") G
      { aliceApplied bundle with clock := now.instant, peer_clock := now.instant } (.record now)
      (alicePulled bundle now) := ⟨.record rfl rfl, hrecord _ rfl rfl⟩
  exact .snoc (.snoc (.snoc (.snoc (.single h₁) h₂) h₃) h₄) h₅

theorem serves_alice : Serves [aliceAtNoon] none (aliceBundle (alice "Alice" noon)) := by
  intro cid row _
  unfold CarriesRow
  rw [payloadsOf_aliceBundle]
  constructor
  · rintro ⟨payload, hp, rfl, hrow⟩
    rw [List.mem_singleton] at hp
    subst hp
    rw [List.mem_singleton] at hrow
    subst hrow
    exact ⟨aliceAtNoon, ⟨[], [], rfl, by simp⟩, nofun, rfl, rfl⟩
  · rintro ⟨v, hv, _, rfl, rfl⟩
    rw [List.mem_singleton.1 hv.mem]
    exact ⟨_, List.mem_cons_self, rfl, List.mem_cons_self⟩

theorem transferred_alice : Transferred pullEngine "peer" none [aliceAtNoon]
    (aliceBundle (alice "Alice" noon)) pullStart.inst := by
  intro v hv _
  rw [List.mem_singleton.1 hv.mem]
  have hparse : (extractBundle (aliceBundle (alice "Alice" noon))).toOption.isSome = true := by
    decide +kernel
  have hout : ∀ e ∈ (pullEngine.applyBundle (aliceBundle (alice "Alice" noon)) "peer" none
      pullStart.inst).1, e.2.2 = .applied := by decide +kernel
  refine ⟨?_, ⟨_, rfl⟩, ⟨.user, rfl⟩, fun o ho => .inl (hout _ ho)⟩
  cases h : extractBundle (aliceBundle (alice "Alice" noon)) with
  | ok r => exact ⟨r, rfl⟩
  | error e =>
    rw [h] at hparse
    cases hparse

/-- In every run of pull cycles the cursor skips no version. -/
def CursorNeverSkips (eng : MeshSyncEngine b) (peer_id : String) : Prop :=
  ∀ s₀ as s, PullStart peer_id s₀ → Run (PullStep eng peer_id) s₀ as s → CursorSafe peer_id s

end

end ScottyCore
