import ScottyCore.Backup.Builtins
import ScottyCore.Sync.Engine

namespace ScottyCore
open Python
set_option autoImplicit true

variable {b b' : Backend} {m : Model}

/-! ## The stored timestamp -/

theorem Row.updatedAt_of_timestamped (r : Row b m) (h : m.timestamped = true) :
    ∃ d, r.updatedAt = some d ∧ r.get "updated_at" = .datetime d ∧ b.native d = true := by
  obtain ⟨d, hd, hn⟩ := r.updated_at h
  exact ⟨d, by rw [Row.updatedAt, hd], hd, hn⟩

theorem parseTs_isoformat (d : DateTime) : parseTs (.str d.isoformat) = some d := by
  rw [parseTs, replaceChar_isoformat, fromisoformat_isoformat]
  rfl

/-- The stamp of a version is what `_parse_ts` reads back from JSON. -/
theorem parseTs_carried {v : Row b m} (h : Carries row v) (ht : m.timestamped = true) :
    parseTs (row.get "updated_at") = v.updatedAt := by
  obtain ⟨d, hd, hv, _⟩ := v.updatedAt_of_timestamped ht
  have hget := h.get (Model.updated_at_mem ht)
  change row.lookup "updated_at" = some (serialise (v.get "updated_at")) at hget
  rw [hv] at hget
  rw [Dict.get, hget, hd]
  exact parseTs_isoformat d

theorem lww_of_comparable {d e : DateTime} (hn : e.isNaive = d.isNaive) :
    lwwRemoteWins (some d) (some e) origin loc =
      .ok (decide (e.instant < d.instant ∨ (e.instant = d.instant ∧ loc ≤ origin))) := by
  have hlt : e.lt d = .ok (decide (e.instant < d.instant)) := DateTime.lt_ok_iff.2 ⟨hn, rfl⟩
  have hgt : d.lt e = .ok (decide (d.instant < e.instant)) := DateTime.lt_ok_iff.2 ⟨hn.symm, rfl⟩
  simp only [lwwRemoteWins, hlt, hgt]
  rcases lt_trichotomy e.instant d.instant with h | h | h
  · simp [h]
  · simp [h]
  · simp [h, h.not_gt, h.ne']

theorem lwwRemoteWins_iff {r l : DateTime} :
    lwwRemoteWins (some r) (some l) origin loc = .ok true ↔
      l.isNaive = r.isNaive ∧
        (l.instant < r.instant ∨ (l.instant = r.instant ∧ loc ≤ origin)) := by
  by_cases hn : l.isNaive = r.isNaive
  · rw [lww_of_comparable hn, Except.ok.injEq, decide_eq_true_iff]
    exact (and_iff_right hn).symm
  · simp only [lwwRemoteWins, DateTime.lt, hn, false_and, iff_false]
    intro h
    cases h

theorem readModel_timestamped (h : readModel cid = some m) : m.timestamped = true := by
  unfold readModel at h
  split at h
  · cases h; rfl
  · split at h
    · cases h; rfl
    · split at h
      · cases h; rfl
      · split at h
        · cases h; rfl
        · cases h

/-- The `updated_at` of the stored row that a contributor's `get_row` finds. -/
def localStamp (cid : String) (row : Dict) (db : Database b) : Option DateTime :=
  match readModel cid with
  | none => none
  | some m => if rowId row = "" then none else (db.find m (.str (rowId row))).bind Row.updatedAt

def Registered (c : Contributor b) : Prop :=
  c ∈ builtinContributors ∨ ∃ base n, c = filesContributor base n

theorem registered_of_find {c : Contributor b}
    (h : (buildBackupService app_name app_version dir).contributors.find cid = some c) :
    Registered c :=
  (findContributor_cases h).2

/-- The row that `get_row` returns for a stored row. -/
def gotRow (cid : String) (r : Row b m) : Dict :=
  if cid = "tenants" then withTag "tenants" (rowToDict r)
  else if cid = "users" then withTag "users" (rowToDict r)
  else rowToDict r

theorem carries_gotRow (cid : String) (r : Row b m) : Carries (gotRow cid r) r := by
  unfold gotRow
  split
  · exact carries_withTag _ r
  · split
    · exact carries_withTag _ r
    · exact carries_rowToDict r

theorem getRow_registered {c : Contributor b} (hc : Registered c) :
    c.getRow = (readModel c.contributor_id).map fun m _ row_id (db : Database b) =>
      (db.find m (.str row_id)).map (gotRow c.contributor_id) := by
  rcases hc with h | ⟨base, n, rfl⟩
  · simp only [builtinContributors, List.mem_cons, List.not_mem_nil, or_false] at h
    rcases h with rfl | rfl | rfl | rfl | rfl | rfl <;> rfl
  · rfl

theorem localRow_stamp {c : Contributor b} (hc : Registered c) (row : Dict)
    (inst : Installation b) :
    ((MeshSyncEngine.localRow c row inst).bind fun r => parseTs (r.get "updated_at")) =
      localStamp c.contributor_id row inst.db := by
  rw [MeshSyncEngine.localRow, getRow_registered hc, localStamp]
  cases hm : readModel c.contributor_id with
  | none => rfl
  | some m =>
    simp only [Option.map_some]
    split
    · rfl
    · cases inst.db.find m (.str (rowId row)) with
      | none => rfl
      | some l => exact parseTs_carried (carries_gotRow _ l) (readModel_timestamped hm)

/-! ## One row -/

/-- The verdict of LWW on one row of a payload. -/
def verdict (cid : String) (row : Dict) (origin_node_id local_node_id : String)
    (db : Database b) : Except Exc Bool :=
  lwwRemoteWins (parseTs (row.get "updated_at")) (localStamp cid row db) origin_node_id
    local_node_id

theorem isSome_of_lww_false (h : lwwRemoteWins r l origin loc = .ok false) :
    l.isSome = true ∧ r.isSome = true := by
  cases r with
  | none => cases h
  | some r =>
    cases l with
    | none => cases h
    | some l => exact ⟨rfl, rfl⟩

namespace MeshSyncEngine

variable {eng : MeshSyncEngine b} {c : Contributor b} {inst : Installation b}

/-- The conflict that is recorded when the stored row wins. -/
def conflictOf (c : Contributor b) (peer_id : String) (row : Dict) (inst : Installation b) :
    SyncConflict where
  peer_id := peer_id
  tenant_id := row.get "tenant_id"
  resource_type := c.contributor_id
  resource_id := rowId row
  local_payload := (localRow c row inst).getD []
  remote_payload := row
  resolution := "lww_local_kept"

theorem applyRow_eq (hc : Registered c) (peer_id origin : String) (row : Dict)
    (inst : Installation b) :
    eng.applyRow c peer_id origin row inst =
      match verdict c.contributor_id row origin eng.local_node.id inst.db with
      | .error e => (.incomparable e, inst)
      | .ok false => (.conflict, createConflict (conflictOf c peer_id row inst) inst)
      | .ok true => restoreRow c origin row inst := by
  simp only [applyRow, localRow_stamp hc]
  change (match verdict c.contributor_id row origin eng.local_node.id inst.db with
    | .error e => _ | .ok false => _ | .ok true => _) = _
  cases hv : verdict c.contributor_id row origin eng.local_node.id inst.db with
  | error e => rfl
  | ok wins =>
    cases wins with
    | true => rfl
    | false =>
      have hsome := isSome_of_lww_false hv
      simp only [hsome, and_self, if_true]
      rfl

theorem restoreRow_eq (hc : Registered c) (origin : String) (row : Dict)
    (inst : Installation b) :
    restoreRow c origin row inst =
      match (route c.contributor_id row).bind (restoreInto row inst.db) with
      | .error e => (.restoreFailed e, inst)
      | .ok (_, db) => (.applied,
          recordRowOrigin c.contributor_id (rowId row) origin { inst with db := db }) := by
  rw [restoreRow, restore_row hc]
  cases (route c.contributor_id row).bind (restoreInto row inst.db) with
  | error e => rfl
  | ok r => rfl

theorem applyRow_cases (eng : MeshSyncEngine b) (hc : Registered c) (peer_id origin : String)
    (row : Dict) (inst : Installation b) :
    (∃ e, verdict c.contributor_id row origin eng.local_node.id inst.db = .error e ∧
        eng.applyRow c peer_id origin row inst = (.incomparable e, inst)) ∨
      (verdict c.contributor_id row origin eng.local_node.id inst.db = .ok false ∧
        eng.applyRow c peer_id origin row inst =
          (.conflict, createConflict (conflictOf c peer_id row inst) inst)) ∨
      (verdict c.contributor_id row origin eng.local_node.id inst.db = .ok true ∧
        ((∃ e, eng.applyRow c peer_id origin row inst = (.restoreFailed e, inst)) ∨
          (route c.contributor_id row = .ok none ∧ eng.applyRow c peer_id origin row inst =
            (.applied, recordRowOrigin c.contributor_id (rowId row) origin inst)) ∨
          ∃ m db, route c.contributor_id row = .ok (some m) ∧ mergeRow m row inst.db = .ok db ∧
            eng.applyRow c peer_id origin row inst =
              (.applied, recordRowOrigin c.contributor_id (rowId row) origin
                { inst with db := db }))) := by
  rw [applyRow_eq hc]
  cases hv : verdict c.contributor_id row origin eng.local_node.id inst.db with
  | error e => exact .inl ⟨e, rfl, rfl⟩
  | ok wins =>
    cases wins with
    | false => exact .inr (.inl ⟨rfl, rfl⟩)
    | true =>
      refine .inr (.inr ⟨rfl, ?_⟩)
      simp only [restoreRow_eq hc]
      cases hroute : route c.contributor_id row with
      | error e => exact .inl ⟨e, rfl⟩
      | ok target =>
        cases target with
        | none => exact .inr (.inl ⟨rfl, rfl⟩)
        | some m =>
          cases hmerge : mergeRow m row inst.db with
          | error e =>
            refine .inl ⟨e, ?_⟩
            simp only [Except.bind, restoreInto, hmerge, Except.map]
          | ok db =>
            refine .inr (.inr ⟨m, db, rfl, hmerge, ?_⟩)
            simp only [Except.bind, restoreInto, hmerge, Except.map]

end MeshSyncEngine

end ScottyCore
