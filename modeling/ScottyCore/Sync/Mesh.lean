import ScottyCore.Sync.Propagation

namespace ScottyCore
open Python MeshSyncEngine TransitionSystem
set_option autoImplicit true

/-! ## Two nodes that push to each other -/

inductive Side where
  | left | right
  deriving DecidableEq, Repr

def Side.other : Side → Side
  | left => right
  | right => left

abbrev MeshState (β : Side → Backend) := (s : Side) → Installation (β s)

abbrev MeshEngines (β : Side → Backend) := (s : Side) → MeshSyncEngine (β s)

inductive MeshAction (β : Side → Backend) where
  | write (s : Side) (db : Database (β s))
  | push (s : Side) (peer : SyncPeer) (bundle : Bytes) (peer_id : String)
  | acknowledge (s : Side) (peer_id : String) (now : DateTime)

variable {β : Side → Backend} {eng : MeshEngines β} {b b' : Backend} {m : Model}

/-- What the receiver of a push does: the log and its installation afterwards. -/
def receive (eng : MeshEngines β) (s : Side) (bundle : Bytes) (peer_id : String)
    (σ : MeshState β) : Log × Installation (β s.other) :=
  (eng s.other).applyInboundBundle bundle (eng s).local_node.id peer_id (σ s.other)

/-- A local write puts any contents into one database. A push is what `_push_cycle` sends,
received through `apply_inbound_bundle`. Its response may come late or never. -/
inductive MeshStep (eng : MeshEngines β) : MeshState β → MeshAction β → MeshState β → Prop where
  | write : MeshStep eng σ (.write s db) (Function.update σ s { σ s with db := db })
  | push {s : Side} : (eng s).pushRequest peer bundle = some (bundle, (eng s).local_node.id) →
      MeshStep eng σ (.push s peer bundle peer_id)
        (Function.update σ s.other (receive eng s bundle peer_id σ).2)
  | acknowledge : MeshStep eng σ (.acknowledge s peer_id now)
      (Function.update σ s (recordPushSuccess peer_id now (σ s)))

/-- Both nodes have run `ensure_local_node` on a database without sync rows. -/
def Booted (eng : MeshEngines β) (σ : MeshState β) : Prop :=
  ∀ s, ∃ (node_name app_name app_version : String) (dir : Option String)
      (decrypt : String → Option String) (inst : Installation (β s)) (node : PlatformNode),
    inst.platform_node.rows = [] ∧ inst.sync_row_origin.rows = [] ∧
      ensureLocalNode node_name inst = .ok (node, σ s) ∧
      eng s = MeshSyncEngine.standard node app_name app_version dir decrypt

theorem upsert_rows_of_empty [DecidableEq κ] {key : α → κ} {t : KeyedTable α key}
    (h : t.rows = []) (x : α) : (t.upsert x).rows = [x] := by
  change KeyedTable.upsertRows key x t.rows = [x]
  rw [h]
  rfl

theorem singletonId_ne : singletonId ≠ "" := by decide

/-- `ensure_local_node` gives every installation the same node id. -/
theorem ensureLocalNode_singleton {inst : Installation b} (h : inst.platform_node.rows = [])
    (hok : ensureLocalNode node_name inst = .ok (node, inst')) :
    node.id = singletonId ∧ inst'.sync_row_origin = inst.sync_row_origin := by
  have hfind : inst.platform_node.find singletonId = none := by
    rw [KeyedTable.find_eq_none_iff, h]
    intro x hx
    cases hx
  have hcreate : createPlatformNodeIdempotent node_name inst =
      { inst with platform_node := inst.platform_node.upsert ⟨singletonId, node_name⟩ } := by
    rw [createPlatformNodeIdempotent, hfind]
  rw [ensureLocalNode, hcreate] at hok
  simp only [getPlatformNode, upsert_rows_of_empty h, List.head?_cons, Except.ok.injEq,
    Prod.mk.injEq] at hok
  obtain ⟨rfl, rfl⟩ := hok
  exact ⟨rfl, rfl⟩

theorem Booted.node_id {σ : MeshState β} (h : Booted eng σ) (s : Side) :
    (eng s).local_node.id = singletonId := by
  obtain ⟨_, _, _, _, _, inst, node, hp, _, hok, he⟩ := h s
  rw [he]
  exact (ensureLocalNode_singleton hp hok).1

theorem Booted.backup {σ : MeshState β} (h : Booted eng σ) (s : Side) :
    ∃ app_name app_version dir,
      (eng s).backup = buildBackupService app_name app_version dir := by
  obtain ⟨_, app_name, app_version, dir, _, _, _, _, _, _, he⟩ := h s
  exact ⟨app_name, app_version, dir, by rw [he]; rfl⟩

theorem Booted.no_origins {σ : MeshState β} (h : Booted eng σ) (s : Side) :
    (σ s).sync_row_origin.rows = [] := by
  obtain ⟨_, _, _, _, _, inst, node, hp, ho, hok, _⟩ := h s
  rw [(ensureLocalNode_singleton hp hok).2]
  exact ho

/-! ## The recorded origins -/

/-- Every recorded origin is one node id. -/
def OriginsAre (node_id : String) (inst : Installation b) : Prop :=
  ∀ o ∈ inst.sync_row_origin.rows, o.origin_node_id = node_id

theorem originsAre_recordRowOrigin {inst : Installation b} (h : OriginsAre node_id inst) :
    OriginsAre node_id (recordRowOrigin cid rid node_id inst) := by
  intro o ho
  rcases KeyedTable.mem_upsert_iff.1 ho with rfl | ⟨ho, _⟩
  · rfl
  · exact h o ho

theorem originsAre_applyRow {eng : MeshSyncEngine b} {c : Contributor b} {inst : Installation b}
    (hc : Registered c) (h : OriginsAre node_id inst) :
    OriginsAre node_id (eng.applyRow c peer_id node_id row inst).2 := by
  rcases applyRow_cases eng hc peer_id node_id row inst with
    ⟨e, _, hr⟩ | ⟨_, hr⟩ | ⟨_, ⟨e, hr⟩ | ⟨_, hr⟩ | ⟨_, _, _, _, hr⟩⟩
  · rw [hr]; exact h
  · rw [hr]; exact h
  · rw [hr]; exact h
  · rw [hr]; exact originsAre_recordRowOrigin h
  · rw [hr]; exact originsAre_recordRowOrigin h

theorem originsAre_applyInboundBundle {eng : MeshSyncEngine b} {inst : Installation b}
    (happs : eng.backup = buildBackupService app_name app_version dir) (hid : node_id ≠ "")
    (h : OriginsAre node_id inst) :
    OriginsAre node_id (eng.applyInboundBundle bundle node_id peer_id inst).2 := by
  rw [applyInboundBundle, applyBundle_eq, originOf_some hid]
  exact applyPayloads_invariant h fun p _ c hf row _ i hi =>
    originsAre_applyRow (registered_of_find (happs ▸ hf)) hi

theorem originsAre_recordPushSuccess {inst : Installation b} (h : OriginsAre node_id inst) :
    OriginsAre node_id (recordPushSuccess peer_id now inst) := by
  unfold recordPushSuccess updatePeer
  split
  · exact h
  · exact h

theorem originsAre_step {σ σ' : MeshState β} (hb : Booted eng σ₀)
    (h : ∀ s, OriginsAre singletonId (σ s)) (hstep : MeshStep eng σ a σ') :
    ∀ s, OriginsAre singletonId (σ' s) := by
  have hupdate : ∀ (s : Side) (inst : Installation (β s)), OriginsAre singletonId inst →
      ∀ t, OriginsAre singletonId (Function.update σ s inst t) := by
    intro s inst hi t
    by_cases ht : t = s
    · subst ht
      rw [Function.update_self]
      exact hi
    · rw [Function.update_of_ne ht]
      exact h t
  cases hstep with
  | write => exact hupdate _ _ (h _)
  | @push _ _ _ _ s _ =>
    obtain ⟨_, _, _, happs⟩ := hb.backup s.other
    apply hupdate
    rw [receive, hb.node_id s]
    exact originsAre_applyInboundBundle happs singletonId_ne (h _)
  | acknowledge => exact hupdate _ _ (originsAre_recordPushSuccess (h _))

/-- In every run each recorded origin is the receiver's own node id. -/
theorem originsAre_run {σ : MeshState β} (hb : Booted eng σ₀)
    (hrun : Run (MeshStep eng) σ₀ as σ) (s : Side) : OriginsAre singletonId (σ s) := by
  refine hrun.invariant (I := fun σ => ∀ s, OriginsAre singletonId (σ s)) ?_
    (originsAre_step hb) s
  intro s o ho
  rw [hb.no_origins s] at ho
  cases ho

/-! ## Propagation -/

/-- The remote timestamp is strictly newer than the stored one. -/
def Row.newerThan (v : Row b' m) (l : Row b m) : Prop :=
  ∃ d e, v.stamp = some d ∧ l.stamp = some e ∧ e < d

/-- A payload that reads the stored row compares the timestamps, any other one does not. -/
theorem admits_iff {v : Row b' m} {l : Row b m} (ht : m.timestamped = true) :
    Admits cid origin loc v l ↔ readModel cid ≠ some m ∨ l.id = .str "" ∨
      (b = b' ∧ (v.newerThan l ∨ (v.stamp = l.stamp ∧ loc ≤ origin))) := by
  obtain ⟨d, hd, _, hdn⟩ := v.updatedAt_of_timestamped ht
  obtain ⟨e, he, _, hen⟩ := l.updatedAt_of_timestamped ht
  have hnewer : v.newerThan l ↔ e.instant < d.instant := by
    simp [Row.newerThan, Row.stamp, hd, he]
  have hsame : v.stamp = l.stamp ↔ e.instant = d.instant := by
    simp [Row.stamp, hd, he, eq_comm]
  rw [Admits, seenStamp, hd, hnewer, hsame]
  by_cases hread : readModel cid = some m
  · by_cases hid : l.id = .str ""
    · rw [if_neg fun hc => hc.2 hid]
      exact ⟨fun _ => .inr (.inl hid), fun _ => rfl⟩
    · rw [if_pos ⟨hread, hid⟩, he, lwwRemoteWins_iff, isNaive_eq_iff hen hdn]
      exact ⟨fun h => .inr (.inr h),
        fun h => (h.resolve_left (not_not_intro hread)).resolve_left hid⟩
  · rw [if_neg fun hc => hread hc.1]
    exact ⟨fun _ => .inl hread, fun _ => rfl⟩

theorem admits_of_newer {v : Row b' m} {l : Row b m} (ht : m.timestamped = true)
    (h : v.newerThan l) :
    Admits cid origin loc v l ↔ readModel cid ≠ some m ∨ l.id = .str "" ∨ b = b' := by
  rw [admits_iff ht, and_iff_left (Or.inl h)]

theorem keepsRow_iff {inst : Installation b} (h : OriginsAre node_id inst) :
    keepsRow cid [node_id] inst row = true ↔
      rowId row = "" ∨ getRowOrigin cid (rowId row) inst = none := by
  unfold keepsRow
  by_cases hid : rowId row = ""
  · rw [if_pos hid]
    exact ⟨fun _ => .inl hid, fun _ => rfl⟩
  · rw [if_neg hid]
    cases ho : getRowOrigin cid (rowId row) inst with
    | none => exact ⟨fun _ => .inr rfl, fun _ => rfl⟩
    | some o =>
      have horigin : o.origin_node_id = node_id := h o (KeyedTable.mem_of_find ho)
      simp [horigin, hid]

/-- A payload carries the row of a model under a key. -/
def PayloadCarries (payload : String × List Dict) (m : Model) (key : Val) : Prop :=
  ∃ row ∈ payload.2, Hits payload.1 row m key

instance (payload : String × List Dict) (m : Model) (key : Val) :
    Decidable (PayloadCarries payload m key) :=
  inferInstanceAs (Decidable (∃ row ∈ payload.2, _))

/-- The receiver has not recorded an origin for a row of a payload. -/
def Unrecorded (payload : String × List Dict) (key : Val) (inst : Installation b) : Prop :=
  getRowOrigin payload.1 key.toStr inst = none

/-- A payload gets through to a receiver: the receiver recorded no origin for the row, and
LWW need not compare a naive with an aware timestamp. -/
def GetsThrough (sender : Backend) (payload : String × List Dict) (l : Row b m)
    (inst : Installation b) : Prop :=
  l.id = .str "" ∨ (Unrecorded payload l.id inst ∧ (readModel payload.1 ≠ some m ∨ sender = b))

theorem letsIn_of_newer {v : Row b' m} {l : Row b m} {inst : Installation b}
    (ht : m.timestamped = true) (hid : v.id = l.id) (hnew : v.newerThan l)
    (ho : OriginsAre loc inst) :
    LetsIn origin loc inst v l payload ↔
      PayloadCarries payload m l.id ∧ GetsThrough b' payload l inst := by
  obtain ⟨s, hs⟩ := l.id_text ht
  rw [LetsIn, admits_of_newer ht hnew, hid]
  have hkeep : ∀ row, Hits payload.1 row m l.id →
      (keepsRow payload.1 [loc] inst row = true ↔
        l.id = .str "" ∨ Unrecorded payload l.id inst) := by
    intro row hh
    have hrid : rowId row = s := rowId_of_get (hh.2.trans hs)
    rw [keepsRow_iff ho, Unrecorded, hrid, hs]
    simp only [Val.str.injEq]
    rfl
  constructor
  · rintro ⟨⟨row, hr, hh, hk⟩, ha⟩
    refine ⟨⟨row, hr, hh⟩, ?_⟩
    rcases (hkeep row hh).1 hk with he | hu
    · exact .inl he
    · rcases ha with ha | he | hb
      · exact .inr ⟨hu, .inl ha⟩
      · exact .inl he
      · exact .inr ⟨hu, .inr hb.symm⟩
  · rintro ⟨⟨row, hr, hh⟩, he | ⟨hu, ha⟩⟩
    · exact ⟨⟨row, hr, hh, (hkeep row hh).2 (.inl he)⟩, .inr (.inl he)⟩
    · exact ⟨⟨row, hr, hh, (hkeep row hh).2 (.inr hu)⟩, ha.imp_right fun hb => .inr hb.symm⟩

/-- A push delivers a newer version of a row: its payloads carry that version, the receiver
stores an older one, and no restore of the row fails. -/
structure DeliversNewer (eng : MeshEngines β) (σ : MeshState β) (s : Side) (bundle : Bytes)
    (peer_id : String) (v : Row (β s) m) (l : Row (β s.other) m) : Prop where
  timestamped : m.timestamped = true
  carried : ∃ payload ∈ payloadsOf bundle, PayloadCarries payload m v.id
  delivers : Delivers (payloadsOf bundle) v
  stored : (σ s.other).db.find m v.id = some l
  newer : v.newerThan l
  restored : NoRestoreFailure (receive eng s bundle peer_id σ).1 m v.id

/-- In every run, a push that delivers a newer version leaves it stored exactly when one of
the payloads that carry the row gets through. -/
theorem push_stores_newer_iff {σ₀ σ σ' : MeshState β} {v : Row (β s) m} {l : Row (β s.other) m}
    (hb : Booted eng σ₀) (hrun : Run (MeshStep eng) σ₀ as σ)
    (hstep : MeshStep eng σ (.push s peer bundle peer_id) σ')
    (hd : DeliversNewer eng σ s bundle peer_id v l) :
    (σ' s.other).db.find m v.id = some (v.on (β s.other)) ↔
      ∃ payload ∈ payloadsOf bundle, PayloadCarries payload m v.id ∧
        GetsThrough (β s) payload l (σ s.other) := by
  have hid : v.id = l.id := (Database.id_of_find hd.stored).symm
  obtain ⟨_, _, _, happs⟩ := hb.backup s.other
  have hother : v.otherStamp l := by
    obtain ⟨d, e, hv, hl, hlt⟩ := hd.newer
    apply otherStamp_of_stamp hd.timestamped
    rw [hv, hl]
    intro he
    cases he
    exact lt_irrefl _ hlt
  have hne : v.on (β s.other) ≠ l := by
    obtain ⟨d, e, hv, hl, hlt⟩ := hd.newer
    intro he
    have hstamp := stamp_on hd.timestamped (β s.other) (v := v)
    rw [he, hl, hv] at hstamp
    cases hstamp
    exact lt_irrefl _ hlt
  have hafter : (σ' s.other) = (receive eng s bundle peer_id σ).2 := by
    cases hstep
    exact Function.update_self ..
  have hrestored := hd.restored
  have hreceive : receive eng s bundle peer_id σ =
      (eng s.other).applyPayloads peer_id (eng s).local_node.id (payloadsOf bundle)
        (σ s.other) := by
    rw [receive, applyInboundBundle, applyBundle_eq, originOf_some]
    rw [hb.node_id s]
    exact singletonId_ne
  rw [hreceive] at hafter hrestored
  rw [hafter]
  have hlets : ∀ payload, LetsIn (eng s).local_node.id (eng s.other).local_node.id (σ s.other) v l
      payload ↔ PayloadCarries payload m v.id ∧ GetsThrough (β s) payload l (σ s.other) := by
    intro payload
    rw [hb.node_id s.other, hid]
    exact letsIn_of_newer hd.timestamped hid hd.newer (originsAre_run hb hrun s.other)
  rcases find_applyPayloads_other happs hd.timestamped (payloadsOf_nodup bundle) hd.delivers hid
    hother hd.stored hrestored with ⟨⟨p, hp, hin⟩, h⟩ | ⟨hnone, h⟩
  · exact ⟨fun _ => ⟨p, hp, (hlets p).1 hin⟩, fun _ => h⟩
  · constructor
    · intro hv
      rw [h] at hv
      exact (hne (Option.some.inj hv).symm).elim
    · rintro ⟨p, hp, hin⟩
      exact (hnone ⟨p, hp, (hlets p).2 hin⟩).elim

/-- Every push of a newer version leaves it stored. -/
def Propagates (eng : MeshEngines β) (σ₀ : MeshState β) : Prop :=
  ∀ as σ σ' s peer bundle peer_id (m : Model) (v : Row (β s) m) (l : Row (β s.other) m),
    Run (MeshStep eng) σ₀ as σ → MeshStep eng σ (.push s peer bundle peer_id) σ' →
      DeliversNewer eng σ s bundle peer_id v l →
        (σ' s.other).db.find m v.id = some (v.on (β s.other))

/-! ## Two pushes of one user -/

section

abbrev sqlitePair : Side → Backend := fun _ => .sqlite

def pairEngines : MeshEngines sqlitePair := fun _ =>
  MeshSyncEngine.standard ⟨singletonId, "node"⟩ "app" "1.0" none some

def pairBooted : MeshState sqlitePair := fun _ =>
  createPlatformNodeIdempotent "node" (installationOf (alice "Alice" morning))

def pushedBy (σ : MeshState sqlitePair) (s : Side) : Bytes :=
  ((pairEngines s).buildPushBundle freshPeer noon (σ s)).1

def writeAlice (σ : MeshState sqlitePair) (v : Row .sqlite .user) : MeshState sqlitePair :=
  Function.update σ .left { σ .left with db := (σ .left).db.put v }

def afterPush (σ : MeshState sqlitePair) : MeshState sqlitePair :=
  Function.update σ .right (receive pairEngines .left (pushedBy σ .left) "peer" σ).2

def noonWritten : MeshState sqlitePair := writeAlice pairBooted (alice "Noon" noon)

def eveningWritten : MeshState sqlitePair :=
  writeAlice (afterPush noonWritten) (alice "Evening" evening)

theorem pairBooted_booted : Booted pairEngines pairBooted := fun _ =>
  ⟨"node", "app", "1.0", none, some, installationOf (alice "Alice" morning),
    ⟨singletonId, "node"⟩, rfl, rfl, rfl, rfl⟩

theorem push_step (σ : MeshState sqlitePair)
    (h : (pairEngines .left).pushRequest freshPeer (pushedBy σ .left) =
      some (pushedBy σ .left, (pairEngines .left).local_node.id)) :
    MeshStep pairEngines σ (.push .left freshPeer (pushedBy σ .left) "peer") (afterPush σ) :=
  .push h

theorem noon_run : Run (MeshStep pairEngines) pairBooted
    [.write .left ((pairBooted .left).db.put (alice "Noon" noon))] noonWritten :=
  .single .write

theorem evening_run : ∃ as, Run (MeshStep pairEngines) pairBooted as eveningWritten :=
  ⟨_, .snoc (.snoc noon_run (push_step noonWritten rfl)) .write⟩

theorem noon_delivered : DeliversNewer pairEngines noonWritten .left (pushedBy noonWritten .left)
    "peer" (alice "Noon" noon) (alice "Alice" morning) where
  timestamped := rfl
  carried := by decide +kernel
  delivers := by decide +kernel
  stored := by decide +kernel
  newer := ⟨_, _, rfl, rfl, by decide⟩
  restored := by decide +kernel

theorem evening_delivered : DeliversNewer pairEngines eveningWritten .left
    (pushedBy eveningWritten .left) "peer" (alice "Evening" evening) (alice "Noon" noon) where
  timestamped := rfl
  carried := by decide +kernel
  delivers := by decide +kernel
  stored := by decide +kernel
  newer := ⟨_, _, rfl, rfl, by decide⟩
  restored := by decide +kernel

theorem push_stores_noon :
    (afterPush noonWritten .right).db.find .user (.str "alice") =
        some ((alice "Noon" noon).on .sqlite) ↔
      ∃ payload ∈ payloadsOf (pushedBy noonWritten .left),
        PayloadCarries payload .user (.str "alice") ∧
          GetsThrough .sqlite payload (alice "Alice" morning) (noonWritten .right) :=
  push_stores_newer_iff pairBooted_booted noon_run (push_step noonWritten rfl) noon_delivered

/-- The second push of the same user is dropped as an echo. -/
theorem push_not_propagated :
    Booted pairEngines pairBooted ∧ ¬ Propagates pairEngines pairBooted := by
  refine ⟨pairBooted_booted, fun h => ?_⟩
  obtain ⟨as, hrun⟩ := evening_run
  have hstored := h as eveningWritten _ .left freshPeer _ "peer" .user _ _ hrun
    (push_step eveningWritten rfl) evening_delivered
  have hkept : (afterPush eveningWritten .right).db.find .user (.str "alice") =
      some (alice "Noon" noon) := by decide +kernel
  have hne : some (alice "Noon" noon) ≠ some ((alice "Evening" evening).on .sqlite) := by
    decide +kernel
  exact hne (hkept.symm.trans hstored)

end

end ScottyCore
