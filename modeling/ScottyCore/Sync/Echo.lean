import ScottyCore.Sync.Cursor
import ScottyCore.Sync.Peers
import ScottyCore.Sync.PushScope

namespace ScottyCore
open Python MeshSyncEngine
set_option autoImplicit true

variable {b : Backend} {m : Model}

/-! ## Rows that came from the peer -/

/-- The row was received from a node. -/
def ReceivedFrom (node_id cid : String) (row : Dict) (o : SyncRowOrigin) (inst : Installation b) :
    Prop :=
  getRowOrigin cid (rowId row) inst = some o ∧ o.origin_node_id = node_id

/-- The row was changed after it was received. -/
def ModifiedSince (row : Dict) (o : SyncRowOrigin) : Prop :=
  ∃ d, parseTs (row.get "updated_at") = some d ∧ o.last_synced_ts.instant < d.instant

/-- A push sends no row back to the peer that it came from, and leaves out no changed row that
came from elsewhere. -/
structure EchoFree (node_id : String) (last_pushed_ts : Option DateTime) (inst : Installation b)
    (bundle : Bytes) : Prop where
  noEcho : ∀ cid row o, CarriesRow bundle cid row → ReceivedFrom node_id cid row o inst →
    ModifiedSince row o
  noLoss : ∀ cid row, PlatformExport inst.db last_pushed_ts cid row →
    (∀ o, ¬ ReceivedFrom node_id cid row o inst) → CarriesRow bundle cid row

/-- Nothing that a push exports was received from the node and left as it was. -/
def NothingToEcho (node_id : String) (inst : Installation b) : Prop :=
  ∀ cid row o, PlatformExport inst.db none cid row → ReceivedFrom node_id cid row o inst →
    ModifiedSince row o

/-- Everything that changed since a moment was received from the node. -/
def NothingOfOthers (node_id : String) (since : Option DateTime) (inst : Installation b) : Prop :=
  ∀ cid row, PlatformExport inst.db since cid row → ∃ o, ReceivedFrom node_id cid row o inst

/-! ## What a push carries -/

section

variable {node : PlatformNode} {app_name app_version : String} {dir : Option String}
variable {decrypt : String → Option String} {peer : SyncPeer} {now : DateTime}
variable {inst : Installation b}

theorem exporter_of_export {db : Database b} (app_name app_version : String) (dir : Option String)
    (excl : List String)
    (h : PlatformExport db none cid row) :
    ∃ c ∈ (buildBackupService app_name app_version dir : BackupService b).inScope .platform,
      ∃ e, BackupService.deltaPayload .platform none none excl db c = .ok (cid, e) ∧
        row ∈ e.rows := by
  have hin : ∀ c : Contributor b, c ∈ builtinContributors → .platform ∈ c.scopes →
      c ∈ (buildBackupService app_name app_version dir : BackupService b).inScope .platform := by
    intro c hc hscope
    rw [BackupService.inScope, List.mem_filter, buildBackupService_rows]
    exact ⟨List.mem_append_left _ hc, decide_eq_true hscope⟩
  rcases h with ⟨m, r, tag, hr, hpayload, rfl⟩ | ⟨rfl, r, ⟨hr, hplat, _⟩, hsecret, rfl⟩
  · obtain ⟨c, hc, hscope, tag', e, hpayload', hdelta, hrow⟩ := exporter_of_pending excl hr
    obtain ⟨rfl, rfl⟩ := Prod.mk.inj (Option.some.inj (hpayload.symm.trans hpayload'))
    exact ⟨c, hin c hc hscope, e, hdelta, hrow⟩
  · obtain ⟨kept, hkept⟩ := keepSecrets_ok (selectSettings .platform none db)
      fun r _ => setting_key r
    have hglobal : r.get "scope" = .str "global" := by
      simpa [platformRow, platformPayload] using hplat
    have hkeep : r ∈ kept := (mem_keepSecrets_iff hkept).2
      ⟨List.mem_filter.2 ⟨hr, decide_eq_true hglobal⟩, hsecret⟩
    refine ⟨secretsContributor, hin _ (by simp [builtinContributors]) List.mem_cons_self,
      { rows := kept.map rowToDict }, ?_, List.mem_map_of_mem hkeep⟩
    simp only [BackupService.deltaPayload, secretsContributor, hkept, bind, Except.bind]

/-- The first push carries the platform's rows, whatever their origin. -/
theorem carriesRow_first (h : peer.last_pushed_ts = none) :
    CarriesRow ((MeshSyncEngine.standard node app_name app_version dir decrypt).buildPushBundle
        peer now inst).1 cid row ↔ PlatformExport inst.db none cid row := by
  obtain ⟨manifest, payloads, hnodup, hbundle, hmem⟩ := pushBundle_first h
  rw [CarriesRow, hbundle, payloadsOf_buildTarball manifest hnodup]
  constructor
  · rintro ⟨payload, hp, rfl, hrow⟩
    obtain ⟨⟨cid, e⟩, hexport, rfl⟩ := List.mem_map.1 hp
    obtain ⟨c, hc, hdelta⟩ := (hmem _).1 hexport
    obtain ⟨hscope, hreg⟩ := registered_of_inScope hc
    exact platformExport_of_delta (hreg.imp_right fun ⟨_, base, hbase⟩ => ⟨base, _, hbase⟩) hscope
      hdelta hrow
  · intro hexport
    obtain ⟨c, hc, e, hdelta, hrow⟩ := exporter_of_export app_name app_version dir [node.id] hexport
    exact ⟨_, List.mem_map_of_mem ((hmem _).2 ⟨c, hc, hdelta⟩), rfl, hrow⟩

/-- A later push carries nothing. -/
theorem carriesRow_later (h : peer.last_pushed_ts = some t) :
    ¬ CarriesRow ((MeshSyncEngine.standard node app_name app_version dir decrypt).buildPushBundle
        peer now inst).1 cid row := by
  rw [buildPushBundle_later node app_name app_version dir decrypt now inst h]
  rintro ⟨payload, hp, _⟩
  cases hp

/-- A push is free of echoes and of losses exactly when, on the first one, nothing that the store
exports came from the peer, and later, nothing that changed came from elsewhere. -/
theorem push_echoFree_iff (node : PlatformNode) (app_name app_version : String)
    (dir : Option String) (decrypt : String → Option String) (peer : PeerRow) (now : DateTime)
    (inst : Installation b) :
    ∀ node_id ∈ peer.peer_node_id,
      (EchoFree node_id peer.last_pushed_ts inst
          ((MeshSyncEngine.standard node app_name app_version dir decrypt).buildPushBundle
            peer.toSyncPeer now inst).1 ↔
        (peer.last_pushed_ts = none → NothingToEcho node_id inst) ∧
          (peer.last_pushed_ts.isSome = true →
            NothingOfOthers node_id peer.last_pushed_ts inst)) := by
  intro node_id _
  cases ht : peer.last_pushed_ts with
  | none =>
    constructor
    · intro h
      refine ⟨fun _ cid row o hexport => h.noEcho cid row o ((carriesRow_first ht).2 hexport), ?_⟩
      intro hsome
      cases hsome
    · rintro ⟨hnothing, _⟩
      refine ⟨?_, fun cid row hexport _ => (carriesRow_first ht).2 hexport⟩
      intro cid row o hcarries
      exact hnothing rfl cid row o ((carriesRow_first ht).1 hcarries)
  | some t =>
    constructor
    · intro h
      refine ⟨fun hnone => (Option.some_ne_none t hnone).elim, ?_⟩
      intro _ cid row hexport
      by_contra hother
      exact carriesRow_later ht (h.noLoss cid row hexport fun o ho => hother ⟨o, ho⟩)
    · rintro ⟨_, hothers⟩
      refine ⟨fun cid row o hcarries => (carriesRow_later ht hcarries).elim, ?_⟩
      intro cid row hexport hother
      obtain ⟨o, ho⟩ := hothers rfl cid row hexport
      exact (hother o ho).elim

end

/-! ## A user that came from the peer -/

def northRow : PeerRow where
  toSyncPeer := freshPeer
  peer_node_id := some "north"
  name := "North"
  our_key_for_them_hash := none
  our_key_for_them_prefix := none
  auto_include_new_tenants := true

/-- A store with one user, received from a node at noon. -/
def receivedFrom (origin_node_id : String) : Installation .sqlite :=
  { installationOf (alice "Alice" noon) with
    sync_row_origin := (∅ : KeyedTable SyncRowOrigin SyncRowOrigin.key).upsert
      ⟨"users", "alice", origin_node_id, noon⟩ }

theorem push_echoFree_south :
    EchoFree "north" none (receivedFrom "south")
      ((MeshSyncEngine.standard ⟨singletonId, "node"⟩ "app" "1.0" none some).buildPushBundle
        freshPeer noon (receivedFrom "south")).1 := by
  apply (push_echoFree_iff _ _ _ _ _ northRow noon (receivedFrom "south") "north" rfl).2
  refine ⟨?_, fun h => by cases h⟩
  intro _ cid row o _ ho
  have horigin : o.origin_node_id = "south" := by
    rw [List.mem_singleton.1 (KeyedTable.mem_of_find ho.1)]
  have hne : "south" ≠ "north" := by decide
  exact (hne (horigin.symm.trans ho.2)).elim

/-- No push echoes or loses a row. -/
def PushesEchoFree (node : PlatformNode) (app_name app_version : String) (dir : Option String)
    (decrypt : String → Option String) : Prop :=
  ∀ (b : Backend) (peer : PeerRow) (now : DateTime) (inst : Installation b),
    ∀ node_id ∈ peer.peer_node_id,
      EchoFree node_id peer.last_pushed_ts inst
        ((MeshSyncEngine.standard node app_name app_version dir decrypt).buildPushBundle
          peer.toSyncPeer now inst).1

/-- A user that was received from the peer is pushed to it. -/
theorem push_echoes : ¬ PushesEchoFree ⟨singletonId, "node"⟩ "app" "1.0" none some := by
  intro h
  have hfree := h .sqlite northRow noon (receivedFrom "north") "north" rfl
  have hexport : PlatformExport (receivedFrom "north").db none "users"
      (withTag "users" (rowToDict (alice "Alice" noon))) :=
    .inl ⟨.user, alice "Alice" noon, _, ⟨KeyedTable.mem_of_find (Database.find_put_self _ _), rfl,
      rfl⟩, rfl, rfl⟩
  obtain ⟨d, hd, hlater⟩ := hfree.noEcho _ _ _ ((carriesRow_first rfl).2 hexport) ⟨rfl, rfl⟩
  rw [parseTs_carried (carries_withTag "users" (alice "Alice" noon)) rfl] at hd
  cases hd
  exact lt_irrefl _ hlater

end ScottyCore
