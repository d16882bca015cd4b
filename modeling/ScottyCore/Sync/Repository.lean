import ScottyCore.Backup.Service

namespace ScottyCore
open Python
set_option autoImplicit true

variable {b : Backend}

/-! ## `services/sync/models.py` -/

structure PlatformNode where
  id : String
  node_name : String
  deriving DecidableEq

structure SyncPeer where
  id : String
  base_url : String
  their_key_for_us : Option String
  enabled : Bool
  sync_mode : String
  last_pulled_ts : Option DateTime
  last_pushed_ts : Option DateTime
  last_error : Option String
  backoff_seconds : Nat

structure SyncRowOrigin where
  table_name : String
  row_id : String
  origin_node_id : String
  last_synced_ts : DateTime

structure SyncConflict where
  peer_id : String
  tenant_id : Val
  resource_type : String
  resource_id : String
  local_payload : Dict
  remote_payload : Dict
  resolution : String
  deriving DecidableEq

abbrev SyncRowOrigin.key (o : SyncRowOrigin) : String × String := (o.table_name, o.row_id)

/-- The database of one installation: the tables that contributors own and the sync tables. -/
structure Installation (b : Backend) where
  db : Database b
  platform_node : KeyedTable PlatformNode PlatformNode.id
  sync_peers : KeyedTable SyncPeer SyncPeer.id
  sync_conflicts : List SyncConflict
  sync_row_origin : KeyedTable SyncRowOrigin SyncRowOrigin.key

/-! ## `services/sync/repository.py` -/

def getPlatformNode (inst : Installation b) : Option PlatformNode :=
  inst.platform_node.rows.head?

def singletonId : String := "singleton"

/-- `INSERT OR IGNORE` under the fixed primary key. -/
def createPlatformNodeIdempotent (node_name : String) (inst : Installation b) : Installation b :=
  match inst.platform_node.find singletonId with
  | some _ => inst
  | none => { inst with platform_node := inst.platform_node.upsert ⟨singletonId, node_name⟩ }

def updatePeer (peer_id : String) (f : SyncPeer → SyncPeer) (inst : Installation b) :
    Installation b :=
  match inst.sync_peers.find peer_id with
  | some p => { inst with sync_peers := inst.sync_peers.upsert (f p) }
  | none => inst

def recordPullSuccess (peer_id : String) (ts : DateTime) : Installation b → Installation b :=
  updatePeer peer_id (fun p =>
    { p with last_pulled_ts := some ts, last_error := none, backoff_seconds := 0 })

def recordPushSuccess (peer_id : String) (ts : DateTime) : Installation b → Installation b :=
  updatePeer peer_id (fun p =>
    { p with last_pushed_ts := some ts, last_error := none, backoff_seconds := 0 })

def recordPeerError (peer_id error : String) (backoff : Nat) : Installation b → Installation b :=
  updatePeer peer_id (fun p => { p with last_error := some error, backoff_seconds := backoff })

def createConflict (c : SyncConflict) (inst : Installation b) : Installation b :=
  { inst with sync_conflicts := inst.sync_conflicts ++ [c] }

def getRowOrigin (table_name row_id : String) (inst : Installation b) : Option SyncRowOrigin :=
  inst.sync_row_origin.find (table_name, row_id)

/-- `record_row_origin`: the latest origin replaces an earlier one. -/
def recordRowOrigin (table_name row_id origin_node_id : String) (inst : Installation b) :
    Installation b :=
  { inst with
    sync_row_origin :=
      inst.sync_row_origin.upsert ⟨table_name, row_id, origin_node_id, inst.db.now⟩ }

/-! ## `services/sync/service.py` -/

def ensureLocalNode (node_name : String) (inst : Installation b) :
    Except Exc (PlatformNode × Installation b) :=
  let inst := createPlatformNodeIdempotent node_name inst
  match getPlatformNode inst with
  | some node => .ok (node, inst)
  | none => .error (.runtimeError "Failed to create PlatformNode — check DB connectivity")

end ScottyCore
