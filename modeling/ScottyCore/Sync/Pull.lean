import ScottyCore.Sync.Slot

namespace ScottyCore
open Python
set_option autoImplicit true

variable {b : Backend}

/-! ## What a bundle leaves in the sync tables -/

/-- The row of a peer's contributor is recorded as a conflict. -/
def Recorded (peer_id cid : String) (row : Dict) (inst : Installation b) : Prop :=
  ∃ k ∈ inst.sync_conflicts, k.peer_id = peer_id ∧ k.resource_type = cid ∧ k.remote_payload = row

theorem Recorded.mono {inst inst' : Installation b} (h : Recorded peer_id cid row inst)
    (hs : inst.sync_conflicts ⊆ inst'.sync_conflicts) : Recorded peer_id cid row inst' := by
  obtain ⟨k, hk, hrow⟩ := h
  exact ⟨k, hs hk, hrow⟩

/-- Every conflict of a log is recorded. -/
def ConflictsRecorded (peer_id : String) (log : MeshSyncEngine.Log) (inst : Installation b) :
    Prop :=
  ∀ e ∈ log, e.2.2 = .conflict → Recorded peer_id e.1 e.2.1 inst

/-- Applying rows leaves the peers alone and only adds conflicts. -/
def SyncFrame (inst inst' : Installation b) : Prop :=
  inst'.sync_peers = inst.sync_peers ∧ inst.sync_conflicts ⊆ inst'.sync_conflicts

theorem SyncFrame.refl (inst : Installation b) : SyncFrame inst inst :=
  ⟨rfl, List.Subset.refl _⟩

theorem SyncFrame.trans {inst inst' inst'' : Installation b} (h : SyncFrame inst inst')
    (h' : SyncFrame inst' inst'') : SyncFrame inst inst'' :=
  ⟨h'.1.trans h.1, fun _ hk => h'.2 (h.2 hk)⟩

namespace MeshSyncEngine

variable {eng : MeshSyncEngine b} {c : Contributor b} {inst : Installation b}

theorem restoreRow_sync (c : Contributor b) (origin : String) (row : Dict)
    (inst : Installation b) : SyncFrame inst (restoreRow c origin row inst).2 ∧
    (restoreRow c origin row inst).1 ≠ .conflict := by
  unfold restoreRow
  split
  · exact ⟨.refl inst, by simp⟩
  · exact ⟨⟨rfl, List.Subset.refl _⟩, by simp⟩

theorem applyRow_sync (eng : MeshSyncEngine b) (c : Contributor b) (peer_id origin : String)
    (row : Dict) (inst : Installation b) :
    SyncFrame inst (eng.applyRow c peer_id origin row inst).2 ∧
      ((eng.applyRow c peer_id origin row inst).1 = .conflict →
        Recorded peer_id c.contributor_id row (eng.applyRow c peer_id origin row inst).2) := by
  have hrestore := restoreRow_sync c origin row inst
  unfold applyRow
  simp only
  split
  · exact ⟨.refl inst, fun h => by cases h⟩
  · split
    · refine ⟨⟨rfl, List.subset_append_left _ _⟩, fun _ => ?_⟩
      exact ⟨_, List.mem_append_right _ List.mem_cons_self, rfl, rfl, rfl⟩
    · exact ⟨hrestore.1, fun h => (hrestore.2 h).elim⟩
  · exact ⟨hrestore.1, fun h => (hrestore.2 h).elim⟩

theorem applyContributorRows_sync (eng : MeshSyncEngine b) (c : Contributor b)
    (peer_id origin : String) (rows : List Dict) (inst : Installation b) :
    let r := eng.applyContributorRows c peer_id origin rows inst
    SyncFrame inst r.2 ∧ ConflictsRecorded peer_id r.1 r.2 := by
  induction rows generalizing inst with
  | nil => exact ⟨.refl inst, fun _ h => by cases h⟩
  | cons row rows ih =>
    obtain ⟨hframe, hrec⟩ := applyRow_sync eng c peer_id origin row inst
    obtain ⟨hframe', hrec'⟩ := ih (eng.applyRow c peer_id origin row inst).2
    rw [applyContributorRows]
    refine ⟨hframe.trans hframe', fun e he hc => ?_⟩
    rcases List.mem_cons.1 he with rfl | he
    · exact (hrec hc).mono hframe'.2
    · exact hrec' e he hc

theorem applyPayload_sync (eng : MeshSyncEngine b) (peer_id origin : String)
    (payload : String × List Dict) (inst : Installation b) :
    let r := eng.applyPayload peer_id origin payload inst
    SyncFrame inst r.2 ∧ ConflictsRecorded peer_id r.1 r.2 := by
  rw [applyPayload]
  cases hfind : eng.backup.contributors.find payload.1 with
  | none => exact ⟨.refl inst, fun _ h => by cases h⟩
  | some c =>
    obtain ⟨hframe, hrec⟩ := applyContributorRows_sync eng c peer_id origin
      (filterRowsByOrigin payload.2 payload.1 [eng.local_node.id] inst) inst
    refine ⟨hframe, fun e he hc => ?_⟩
    rcases List.mem_append.1 he with he | he
    · obtain ⟨row, _, rfl⟩ := List.mem_map.1 he
      cases hc
    · exact hrec e he hc

theorem applyPayloads_sync (payloads : List (String × List Dict)) (inst : Installation b) :
    let r := eng.applyPayloads peer_id origin payloads inst
    SyncFrame inst r.2 ∧ ConflictsRecorded peer_id r.1 r.2 := by
  induction payloads generalizing inst with
  | nil => exact ⟨.refl inst, fun _ h => by cases h⟩
  | cons payload payloads ih =>
    obtain ⟨hframe, hrec⟩ := applyPayload_sync eng peer_id origin payload inst
    obtain ⟨hframe', hrec'⟩ := ih (eng.applyPayload peer_id origin payload inst).2
    rw [applyPayloads]
    refine ⟨hframe.trans hframe', fun e he hc => ?_⟩
    rcases List.mem_append.1 he with he | he
    · exact (hrec e he hc).mono hframe'.2
    · exact hrec' e he hc

theorem applyBundle_sync (bundle : Bytes) (peer_id : String) (origin : Option String)
    (inst : Installation b) :
    let r := eng.applyBundle bundle peer_id origin inst
    SyncFrame inst r.2 ∧ ConflictsRecorded peer_id r.1 r.2 := by
  rw [applyBundle_eq]
  exact applyPayloads_sync (payloadsOf bundle) inst

/-! ## The log of a bundle -/

theorem exists_outcome_rows {rows : List Dict} (eng : MeshSyncEngine b) (c : Contributor b)
    (peer_id origin : String) (h : row ∈ rows) (inst : Installation b) :
    ∃ o, (c.contributor_id, row, o) ∈ (eng.applyContributorRows c peer_id origin rows inst).1 := by
  induction rows generalizing inst with
  | nil => cases h
  | cons r rows ih =>
    rw [applyContributorRows]
    rcases List.mem_cons.1 h with rfl | h
    · exact ⟨_, List.mem_cons_self⟩
    · obtain ⟨o, ho⟩ := ih h (eng.applyRow c peer_id origin r inst).2
      exact ⟨o, List.mem_cons_of_mem _ ho⟩

theorem exists_outcome_payload {payload : String × List Dict} (peer_id origin : String)
    (h : row ∈ payload.2)
    (hc : eng.backup.contributors.find payload.1 = some c) (inst : Installation b) :
    ∃ o, (payload.1, row, o) ∈ (eng.applyPayload peer_id origin payload inst).1 := by
  have hcid : c.contributor_id = payload.1 := KeyedTable.key_of_find hc
  rw [applyPayload, hc]
  by_cases hk : keepsRow payload.1 [eng.local_node.id] inst row = true
  · obtain ⟨o, ho⟩ := exists_outcome_rows eng c peer_id origin
      (List.mem_filter.2 ⟨h, hk⟩) inst
    exact ⟨o, List.mem_append_right _ (hcid ▸ ho)⟩
  · refine ⟨.filtered, List.mem_append_left _ (List.mem_map.2 ⟨row, ?_, rfl⟩)⟩
    exact List.mem_filter.2 ⟨h, by simpa using hk⟩

theorem exists_outcome {payloads : List (String × List Dict)} (peer_id origin : String)
    (hp : payload ∈ payloads)
    (h : row ∈ payload.2) (hc : eng.backup.contributors.find payload.1 = some c)
    (inst : Installation b) :
    ∃ o, (payload.1, row, o) ∈ (eng.applyPayloads peer_id origin payloads inst).1 := by
  induction payloads generalizing inst with
  | nil => cases hp
  | cons p payloads ih =>
    rw [applyPayloads]
    rcases List.mem_cons.1 hp with rfl | hp
    · obtain ⟨o, ho⟩ := exists_outcome_payload peer_id origin h hc inst
      exact ⟨o, List.mem_append_left _ ho⟩
    · obtain ⟨o, ho⟩ := ih hp (eng.applyPayload peer_id origin p inst).2
      exact ⟨o, List.mem_append_right _ ho⟩

end MeshSyncEngine

end ScottyCore
