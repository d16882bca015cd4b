import ScottyCore.Sync.Repository

namespace ScottyCore
open Python
set_option autoImplicit true

variable {b : Backend}

/-- Rows updated within this many seconds before a cursor are fetched again. -/
def clockSkewToleranceS : Int := 60

/-- The collaborators of `MeshSyncEngine`. The vault that decrypts peer keys is the consumer
app's. -/
structure MeshSyncEngine (b : Backend) where
  local_node : PlatformNode
  backup : BackupService b
  decrypt_their_key : String → Option String

/-- The lower bound of a delta: the cursor minus the clock-skew tolerance. -/
def sinceOf : Option DateTime → Except Exc (Option DateTime)
  | none => .ok none
  | some ts => (Exc.ofPython (ts.add (-clockSkewToleranceS * 1000000))).map some

def parseTs : Val → Option DateTime
  | .datetime d => some d
  | .str s => (fromisoformat (replaceChar 'Z' "+00:00" s)).toOption
  | _ => none

/-- `_lww_remote_wins`. Comparing a naive with an aware timestamp raises. -/
def lwwRemoteWins (remote_ts local_ts : Option DateTime) (remote_node_id local_node_id : String) :
    Except Exc Bool :=
  match remote_ts, local_ts with
  | some r, some l =>
    match l.lt r with
    | .error e => .error (.python e)
    | .ok true => .ok true
    | .ok false =>
      match r.lt l with
      | .error e => .error (.python e)
      | .ok true => .ok false
      | .ok false => .ok (decide (local_node_id ≤ remote_node_id))
  | _, _ => .ok true

/-- `str(row.get("id", ""))` -/
def rowId (row : Dict) : String := (row.getD "id" (.str "")).toStr

/-- `origin_node_id or "unknown"` -/
def originOf : Option String → String
  | none | some "" => "unknown"
  | some node_id => node_id

theorem originOf_some (h : node_id ≠ "") : originOf (some node_id) = node_id := by
  rw [originOf]
  intro he
  exact h he

/-- What became of one row of a payload. -/
inductive RowOutcome where
  | filtered
  | applied
  | conflict
  | incomparable (e : Exc)
  | restoreFailed (e : Exc)
  deriving DecidableEq

def RowOutcome.isRestoreFailed : RowOutcome → Bool
  | restoreFailed _ => true
  | _ => false

namespace MeshSyncEngine

/-- The row of the contributor's own table, when it has a `get_row` and the row an id. -/
def localRow (c : Contributor b) (row : Dict) (inst : Installation b) : Option Dict :=
  match c.getRow with
  | some get_row => if rowId row = "" then none else get_row c.contributor_id (rowId row) inst.db
  | none => none

/-- Restore one row and record its origin. -/
def restoreRow (c : Contributor b) (origin_node_id : String) (row : Dict)
    (inst : Installation b) : RowOutcome × Installation b :=
  match c.restore .platform (row.get "tenant_id") (.ofRows [row]) [] inst.db with
  | (.error e, db) => (.restoreFailed e, { inst with db := db })
  | (.ok _, db) =>
    (.applied, recordRowOrigin c.contributor_id (rowId row) origin_node_id { inst with db := db })

/-- The body of the loop of `_apply_contributor_rows`. -/
def applyRow (eng : MeshSyncEngine b) (c : Contributor b) (peer_id origin_node_id : String)
    (row : Dict) (inst : Installation b) : RowOutcome × Installation b :=
  let remote_updated_at := parseTs (row.get "updated_at")
  let local_row := localRow c row inst
  let local_updated_at := local_row.bind fun r => parseTs (r.get "updated_at")
  match lwwRemoteWins remote_updated_at local_updated_at origin_node_id eng.local_node.id with
  | .error e => (.incomparable e, inst)
  | .ok false =>
    if local_updated_at.isSome ∧ remote_updated_at.isSome then
      (.conflict, createConflict
        { peer_id := peer_id
          tenant_id := row.get "tenant_id"
          resource_type := c.contributor_id
          resource_id := rowId row
          local_payload := local_row.getD []
          remote_payload := row
          resolution := "lww_local_kept" } inst)
    else restoreRow c origin_node_id row inst
  | .ok true => restoreRow c origin_node_id row inst

/-- One entry of the log of a bundle's application: contributor, row and outcome. -/
abbrev Log := List (String × Dict × RowOutcome)

/-- `(rows_applied, rows_skipped, conflicts_created)` -/
def Log.counters (log : Log) : Nat × Nat × Nat :=
  (log.countP fun e => e.2.2 = .applied,
    log.countP fun e => e.2.2 ≠ .applied ∧ e.2.2 ≠ .conflict,
    log.countP fun e => e.2.2 = .conflict)

/-- `_apply_contributor_rows`, with its log in place of the three counters. -/
def applyContributorRows (eng : MeshSyncEngine b) (c : Contributor b)
    (peer_id origin_node_id : String) : List Dict → Installation b → Log × Installation b
  | [], inst => ([], inst)
  | row :: rows, inst =>
    let (outcome, inst) := eng.applyRow c peer_id origin_node_id row inst
    let (log, inst) := eng.applyContributorRows c peer_id origin_node_id rows inst
    ((c.contributor_id, row, outcome) :: log, inst)

/-- Whether `_filter_rows_by_origin` keeps a row. -/
def keepsRow (contributor_id : String) (exclude_origins : List String) (inst : Installation b)
    (row : Dict) : Bool :=
  if rowId row = "" then true
  else
    match getRowOrigin contributor_id (rowId row) inst with
    | none => true
    | some origin => origin.origin_node_id ∉ exclude_origins

def filterRowsByOrigin (rows : List Dict) (contributor_id : String)
    (exclude_origins : List String) (inst : Installation b) : List Dict :=
  rows.filter (keepsRow contributor_id exclude_origins inst)

/-- The body of the loop of `_apply_bundle`: one payload. -/
def applyPayload (eng : MeshSyncEngine b) (peer_id origin_node_id : String)
    (payload : String × List Dict) (inst : Installation b) : Log × Installation b :=
  match eng.backup.contributors.find payload.1 with
  | none => ([], inst)
  | some c =>
    let exclude := [eng.local_node.id]
    let dropped := payload.2.filter fun row => !keepsRow payload.1 exclude inst row
    let (log, inst) := eng.applyContributorRows c peer_id origin_node_id
      (filterRowsByOrigin payload.2 payload.1 exclude inst) inst
    (dropped.map (fun row => (payload.1, row, .filtered)) ++ log, inst)

def applyPayloads (eng : MeshSyncEngine b) (peer_id origin_node_id : String) :
    List (String × List Dict) → Installation b → Log × Installation b
  | [], inst => ([], inst)
  | payload :: payloads, inst =>
    let (log, inst) := eng.applyPayload peer_id origin_node_id payload inst
    let (rest, inst) := eng.applyPayloads peer_id origin_node_id payloads inst
    (log ++ rest, inst)

/-- `_apply_bundle`. A bundle that does not parse is dropped. -/
def applyBundle (eng : MeshSyncEngine b) (bundle : Bytes) (peer_id : String)
    (origin_node_id : Option String) (inst : Installation b) : Log × Installation b :=
  match extractBundle bundle with
  | .error _ => ([], inst)
  | .ok (_, data) => eng.applyPayloads peer_id (originOf origin_node_id) data.rows inst

def applyInboundBundle (eng : MeshSyncEngine b) (bundle : Bytes) (origin_node_id peer_id : String)
    (inst : Installation b) : Log × Installation b :=
  eng.applyBundle bundle peer_id (some origin_node_id) inst

/-- The guarded part of `_build_push_bundle`. -/
def exportPushDelta (eng : MeshSyncEngine b) (peer : SyncPeer) (now : DateTime)
    (db : Database b) : Except Exc (Bytes × Database b) := do
  let push_since ← sinceOf peer.last_pushed_ts
  eng.backup.exportPlatformDelta push_since [eng.local_node.id]
    "00000000-0000-0000-0000-000000000000" "sync-engine" now db

/-- `_build_push_bundle`: any failure gives no bytes. -/
def buildPushBundle (eng : MeshSyncEngine b) (peer : SyncPeer) (now : DateTime)
    (inst : Installation b) : Bytes × Installation b :=
  match eng.exportPushDelta peer now inst.db with
  | .ok (bundle, db) => (bundle, { inst with db := db })
  | .error _ => (.empty, inst)

/-- The request that `_push_cycle` sends: the bundle and the sender's node id. -/
def pushRequest (eng : MeshSyncEngine b) (peer : SyncPeer) (bundle : Bytes) :
    Option (Bytes × String) :=
  match peer.their_key_for_us, bundle with
  | none, _ | some "", _ => none
  | some _, .empty => none
  | some key, bundle =>
    match eng.decrypt_their_key key with
    | none | some "" => none
    | some _ => some (bundle, eng.local_node.id)

end MeshSyncEngine

end ScottyCore
