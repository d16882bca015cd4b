import ScottyCore.Auth.Tokens
import ScottyCore.Lib.Bytes
import ScottyCore.Lib.Run
import ScottyCore.Sync.Repository

namespace ScottyCore
open Python TransitionSystem
set_option autoImplicit true

/-! ## `services/sync/models.py` -/

/-- A row of `sync_peers`, with the columns that only the service reads. -/
structure PeerRow extends SyncPeer where
  peer_node_id : Option String := none
  name : String
  our_key_for_them_hash : Option String
  our_key_for_them_prefix : Option String
  auto_include_new_tenants : Bool

abbrev PeerRow.key (p : PeerRow) : String := p.id

structure PeerApiKey where
  peer_id : String
  key_hash : String
  key_prefix : String
  is_active : Bool := true
  rotated_at : Option DateTime := none
  deriving DecidableEq

structure PeerStore where
  sync_peers : KeyedTable PeerRow PeerRow.key
  peer_api_keys : List PeerApiKey

/-! ## `services/sync/schemas.py` -/

inductive SyncMode where
  | full | tenantsOnly | selected
  deriving DecidableEq

def SyncMode.value : SyncMode → String
  | full => "full"
  | tenantsOnly => "tenants_only"
  | selected => "selected"

structure SyncPeerCreate where
  name : String
  base_url : String
  their_key_for_us : Option String := none
  sync_mode : SyncMode := .full
  auto_include_new_tenants : Bool := true
  enabled : Bool := true

structure SyncPeerUpdate where
  name : Option String := none
  base_url : Option String := none
  their_key_for_us : Option String := none
  sync_mode : Option SyncMode := none
  auto_include_new_tenants : Option Bool := none
  enabled : Option Bool := none

/-! ## `services/sync/repository.py` -/

/-- The columns that `update_peer_fields` sets. -/
structure PeerFields where
  name : Option String := none
  base_url : Option String := none
  their_key_for_us : Option String := none
  sync_mode : Option String := none
  auto_include_new_tenants : Option Bool := none
  enabled : Option Bool := none
  peer_node_id : Option String := none
  our_key_for_them_hash : Option String := none
  our_key_for_them_prefix : Option String := none

def PeerFields.apply (fields : PeerFields) (p : PeerRow) : PeerRow :=
  { p with
    name := fields.name.getD p.name
    base_url := fields.base_url.getD p.base_url
    their_key_for_us := fields.their_key_for_us.or p.their_key_for_us
    sync_mode := fields.sync_mode.getD p.sync_mode
    auto_include_new_tenants := fields.auto_include_new_tenants.getD p.auto_include_new_tenants
    enabled := fields.enabled.getD p.enabled
    peer_node_id := fields.peer_node_id.or p.peer_node_id
    our_key_for_them_hash := fields.our_key_for_them_hash.or p.our_key_for_them_hash
    our_key_for_them_prefix := fields.our_key_for_them_prefix.or p.our_key_for_them_prefix }

namespace PeerStore

def getPeer (store : PeerStore) (peer_id : String) : Option PeerRow :=
  store.sync_peers.find peer_id

def createPeer (store : PeerStore) (p : PeerRow) : Except AppError PeerStore :=
  match store.getPeer p.id with
  | some _ => .error (.integrity "UNIQUE constraint failed: sync_peers.id")
  | none => .ok { store with sync_peers := store.sync_peers.upsert p }

def updatePeerFields (store : PeerStore) (peer_id : String) (fields : PeerFields) :
    Option PeerStore :=
  (store.getPeer peer_id).map fun p =>
    { store with sync_peers := store.sync_peers.upsert (fields.apply p) }

/-- `session.delete`. The foreign key cascades where the database enforces it: SQLite does not
without its pragma. -/
def deletePeer (store : PeerStore) (b : Backend) (peer_id : String) : PeerStore where
  sync_peers := store.sync_peers.erase peer_id
  peer_api_keys :=
    match b with
    | .sqlite => store.peer_api_keys
    | .postgresql => store.peer_api_keys.filter fun k => k.peer_id ≠ peer_id

def getActiveKeyByPrefix (store : PeerStore) ( key_prefix : String) : Option PeerApiKey :=
  store.peer_api_keys.find? fun k => k.key_prefix = key_prefix ∧ k.is_active

def createPeerApiKey (store : PeerStore) (peer_id key_hash key_prefix : String) : PeerStore :=
  { store with
    peer_api_keys := store.peer_api_keys ++
      [{ peer_id := peer_id, key_hash := key_hash, key_prefix := key_prefix }] }

def deactivatePeerKeys (store : PeerStore) (peer_id : String) (rotated_at : DateTime) : PeerStore :=
  { store with
    peer_api_keys := store.peer_api_keys.map fun k =>
      if k.peer_id = peer_id ∧ k.is_active then
        { k with is_active := false, rotated_at := some rotated_at }
      else k }

/-- `record_pull_success`, `record_push_success` and `record_peer_error` set some of these columns
and keep the others. -/
def recordSync (store : PeerStore) (last_pulled_ts last_pushed_ts : Option DateTime)
    (last_error : Option String) (backoff_seconds : Nat) (peer_id : String) : PeerStore :=
  match store.getPeer peer_id with
  | none => store
  | some p =>
    { store with
      sync_peers := store.sync_peers.upsert
        { p with
          last_pulled_ts := last_pulled_ts
          last_pushed_ts := last_pushed_ts
          last_error := last_error
          backoff_seconds := backoff_seconds } }

end PeerStore

/-! ## `services/sync/auth.py` -/

def keyPrefixLen : Nat := 8

def keyTotalLen : Nat := 40

/-- `cryptography`'s AES-GCM: key, nonce, data. Decryption can raise. -/
structure Aesgcm where
  encrypt : List UInt8 → List UInt8 → List UInt8 → List UInt8
  decrypt : List UInt8 → List UInt8 → List UInt8 → Option (List UInt8)

/-- Decryption undoes encryption under the same key and fails under another. -/
structure Aesgcm.Exact (c : Aesgcm) : Prop where
  decrypt_encrypt : ∀ key nonce data, c.decrypt key nonce (c.encrypt key nonce data) = some data
  decrypt_other : ∀ key key' nonce data, key' ≠ key →
    c.decrypt key' nonce (c.encrypt key nonce data) = none

/-- What `services/sync` imports. -/
structure SyncService where
  pwd_ctx : CryptContext
  aesgcm : Aesgcm

namespace SyncService

/-- `generate_peer_key` from what `token_urlsafe` draws: the key, its hash and its prefix. -/
def generatePeerKey (svc : SyncService) (token : String) (salt : Nat) :
    String × String × String :=
  let plaintext := sliceTo keyTotalLen token
  (plaintext, svc.pwd_ctx.hash salt plaintext, sliceTo keyPrefixLen plaintext)

def authenticatePeer (svc : SyncService) (bearer : String) (store : PeerStore) :
    Except AppError PeerRow :=
  if bearer = "" ∨ bearer.length < keyPrefixLen then
    .error (.authentication "Invalid peer credentials")
  else
    match store.getActiveKeyByPrefix (sliceTo keyPrefixLen bearer) with
    | none => .error (.authentication "Invalid peer credentials")
    | some candidate_key =>
      if svc.pwd_ctx.verify bearer candidate_key.key_hash then
        match store.getPeer candidate_key.peer_id with
        | none => .error (.authentication "Peer not found or disabled")
        | some peer =>
          if peer.enabled then .ok peer
          else .error (.authentication "Peer not found or disabled")
      else .error (.authentication "Invalid peer credentials")

/-! ## `services/sync/service.py` -/

def vaultPrefix : String := "vault:"

/-- `_encrypt_peer_key`, with the nonce that `os.urandom` draws. -/
def encryptPeerKey (svc : SyncService) (plaintext : String) (vault_key nonce : List UInt8) :
    String :=
  vaultPrefix ++ String.ofList (hex nonce ++ ':' ::
    hex (svc.aesgcm.encrypt vault_key nonce (encodeUtf8 plaintext)))

/-- `_decrypt_peer_key`, where it does not raise. -/
def decryptPeerKey (svc : SyncService) (stored : String) (vault_key : List UInt8) :
    Option String := do
  let (_, rest) ← splitOnce ':' stored.toList
  let (nonce_hex, ct_hex) ← splitOnce ':' rest
  let nonce ← fromHex nonce_hex
  let ct ← fromHex ct_hex
  let pt ← svc.aesgcm.decrypt vault_key nonce ct
  decodeUtf8 pt

/-- `encrypt_their_key`, under the session key of the vault if there is one. -/
def encryptTheirKey (svc : SyncService) (vault : Option (List UInt8)) (plaintext : String)
    (nonce : List UInt8) : String :=
  match vault with
  | none => plaintext
  | some key => svc.encryptPeerKey plaintext key nonce

def decryptTheirKey (svc : SyncService) (vault : Option (List UInt8)) :
    Option String → Option String
  | none => none
  | some stored =>
    if startsWith stored vaultPrefix then vault.bind (svc.decryptPeerKey stored) else some stored

/-- The body of the loop of `migrate_plaintext_peer_keys`. -/
def migratePeer (svc : SyncService) (key : List UInt8) (nonce : String → List UInt8)
    (p : PeerRow) : PeerRow :=
  match p.their_key_for_us with
  | none | some "" => p
  | some stored =>
    if startsWith stored vaultPrefix then p
    else { p with their_key_for_us := some (svc.encryptPeerKey stored key (nonce p.id)) }

theorem migratePeer_key (svc : SyncService) (key : List UInt8) (nonce : String → List UInt8)
    (p : PeerRow) : (svc.migratePeer key nonce p).key = p.key := by
  rw [migratePeer]
  split
  · rfl
  · rfl
  · split
    · rfl
    · rfl

def migratePlaintextPeerKeys (svc : SyncService) (vault : Option (List UInt8))
    (nonce : String → List UInt8) (store : PeerStore) : PeerStore :=
  match vault with
  | none => store
  | some key =>
    { store with
      sync_peers := store.sync_peers.mapRows (svc.migratePeer key nonce)
        (svc.migratePeer_key key nonce) }

/-- `create_peer`, with the id that `new_uuid` draws. It returns the key in plaintext. -/
def createPeer (svc : SyncService) (data : SyncPeerCreate) (peer_id token : String) (salt : Nat)
    (vault : Option (List UInt8)) (nonce : List UInt8) (store : PeerStore) :
    Except AppError (String × PeerStore) := do
  let (plaintext, key_hash, key_prefix) := svc.generatePeerKey token salt
  let stored_their_key :=
    match data.their_key_for_us with
    | none | some "" => none
    | some key => some (svc.encryptTheirKey vault key nonce)
  let store ← store.createPeer
    { id := peer_id
      name := data.name
      base_url := data.base_url
      their_key_for_us := stored_their_key
      our_key_for_them_hash := some key_hash
      our_key_for_them_prefix := some key_prefix
      enabled := data.enabled
      sync_mode := data.sync_mode.value
      auto_include_new_tenants := data.auto_include_new_tenants
      last_pulled_ts := none
      last_pushed_ts := none
      last_error := none
      backoff_seconds := 0 }
  .ok (plaintext, store.createPeerApiKey peer_id key_hash key_prefix)

/-- The fields that `update_peer` sets: what is given, with the key encrypted. -/
def updateFields (svc : SyncService) (vault : Option (List UInt8)) (nonce : List UInt8)
    (data : SyncPeerUpdate) : PeerFields where
  name := data.name
  base_url := data.base_url
  their_key_for_us := data.their_key_for_us.map fun key =>
    if key = "" then key else svc.encryptTheirKey vault key nonce
  sync_mode := data.sync_mode.map SyncMode.value
  auto_include_new_tenants := data.auto_include_new_tenants
  enabled := data.enabled

def updatePeer (svc : SyncService) (peer_id : String) (data : SyncPeerUpdate)
    (vault : Option (List UInt8)) (nonce : List UInt8) (store : PeerStore) :
    Except AppError PeerStore :=
  match store.updatePeerFields peer_id (svc.updateFields vault nonce data) with
  | none => .error (.notFound "SyncPeer" peer_id)
  | some store => .ok store

def deletePeer (b : Backend) (peer_id : String) (store : PeerStore) : Except AppError PeerStore :=
  match store.getPeer peer_id with
  | none => .error (.notFound "SyncPeer" peer_id)
  | some _ => .ok (store.deletePeer b peer_id)

/-- `rotate_peer_key`. It returns the new key in plaintext. -/
def rotatePeerKey (svc : SyncService) (peer_id token : String) (salt : Nat) (now : DateTime)
    (store : PeerStore) : Except AppError (String × PeerStore) :=
  let (plaintext, key_hash, key_prefix) := svc.generatePeerKey token salt
  match store.getPeer peer_id with
  | none => .error (.notFound "SyncPeer" peer_id)
  | some _ =>
    let store := store.deactivatePeerKeys peer_id now
    let store := store.createPeerApiKey peer_id key_hash key_prefix
    .ok (plaintext, (store.updatePeerFields peer_id
      { our_key_for_them_hash := some key_hash,
        our_key_for_them_prefix := some key_prefix }).getD store)

/-- The key that `probe_peer` sends to the peer's `/sync/info`. -/
def probeKey (peer_id : String) (store : PeerStore) : Except AppError String :=
  match store.getPeer peer_id with
  | none => .error (.notFound "SyncPeer" peer_id)
  | some peer =>
    match peer.their_key_for_us with
    | none | some "" => .error (.conflict "Cannot probe peer — their_key_for_us not configured")
    | some key => .ok key

/-- What `probe_peer` stores of the answer. -/
def recordProbe (peer_id node_id : String) (store : PeerStore) : PeerStore :=
  (store.updatePeerFields peer_id { peer_node_id := some node_id }).getD store

/-! ## The calls of `services/sync/engine.py` -/

/-- The key that the pull of `_sync_cycle` sends. -/
def pullKey (svc : SyncService) (vault : Option (List UInt8)) (peer_id : String)
    (store : PeerStore) : Option String :=
  match store.getPeer peer_id with
  | none => none
  | some peer =>
    if !peer.enabled then none
    else
      match peer.their_key_for_us with
      | none | some "" => none
      | some key =>
        match svc.decryptTheirKey vault (some key) with
        | none | some "" => none
        | some decrypted_key => some decrypted_key

/-- The key that `_push_cycle` sends with a bundle. -/
def pushKey (svc : SyncService) (vault : Option (List UInt8)) (bundle : Bytes) (peer_id : String)
    (store : PeerStore) : Option String :=
  match store.getPeer peer_id with
  | none => none
  | some peer =>
    match peer.their_key_for_us, bundle with
    | none, _ | some "", _ => none
    | some _, .empty => none
    | some key, _ =>
      match svc.decryptTheirKey vault (some key) with
      | none | some "" => none
      | some decrypted_key => some decrypted_key

end SyncService

/-! ## The service over time -/

/-- The tables, the session key of the app's vault if there is one, and the ids of the peers that
were ever created. -/
structure PeerState where
  store : PeerStore
  vault : Option (List UInt8)
  drawn : List String

/-- An action carries the key that it hands out or sends. -/
inductive PeerAction where
  | create (peer_id key : String) (data : SyncPeerCreate)
  | update (peer_id : String) (data : SyncPeerUpdate)
  | delete (peer_id : String)
  | rotate (peer_id key : String)
  | migrate
  | vault
  | probe (peer_id key : String)
  | pull (peer_id key : String)
  | push (peer_id key : String)
  | other

/-- What a call that does not raise does; one that raises commits nothing. -/
inductive PeerStep (b : Backend) (svc : SyncService) :
    PeerState → PeerAction → PeerState → Prop where
  -- `new_uuid` repeats no id, and 40 random bytes are 54 characters of base64
  | create : peer_id ∉ s.drawn → token.length = 54 →
      svc.createPeer data peer_id token salt s.vault nonce s.store = .ok (key, store) →
      PeerStep b svc s (.create peer_id key data)
        { s with store := store, drawn := peer_id :: s.drawn }
  | update : svc.updatePeer peer_id data s.vault nonce s.store = .ok store →
      PeerStep b svc s (.update peer_id data) { s with store := store }
  | delete : SyncService.deletePeer b peer_id s.store = .ok store →
      PeerStep b svc s (.delete peer_id) { s with store := store }
  | rotate : token.length = 54 →
      svc.rotatePeerKey peer_id token salt now s.store = .ok (key, store) →
      PeerStep b svc s (.rotate peer_id key) { s with store := store }
  | migrate : PeerStep b svc s .migrate
      { s with store := svc.migratePlaintextPeerKeys s.vault nonce s.store }
  -- the vault is opened, closed or keyed anew
  | vault : PeerStep b svc s .vault { s with vault := vault }
  | probe : SyncService.probeKey peer_id s.store = .ok key →
      PeerStep b svc s (.probe peer_id key) s
  | pull : svc.pullKey s.vault peer_id s.store = some key →
      PeerStep b svc s (.pull peer_id key) s
  | push : svc.pushKey s.vault bundle peer_id s.store = some key →
      PeerStep b svc s (.push peer_id key) s
  -- what a call brought back
  | answered : PeerStep b svc s .other
      { s with store := SyncService.recordProbe peer_id node_id s.store }
  | recorded : PeerStep b svc s .other
      { s with store := s.store.recordSync pulled pushed error backoff peer_id }

/-- No peer yet. -/
def PeerState.Fresh (s : PeerState) : Prop := s.store = ⟨∅, []⟩ ∧ s.drawn = []

/-! ## Plain libraries -/

def markKey : List UInt8 → List UInt8
  | [] => [0]
  | byte :: key => 1 :: byte :: markKey key

/-- The data travels under its key. -/
def Aesgcm.plain : Aesgcm where
  encrypt key _ data := markKey key ++ data
  decrypt key _ data :=
    if (markKey key).isPrefixOf data then some (data.drop (markKey key).length) else none

theorem eq_of_markKey {key key' data : List UInt8} (h : markKey key' <+: markKey key ++ data) :
    key' = key := by
  induction key' generalizing key with
  | nil =>
    cases key with
    | nil => rfl
    | cons byte key => cases (List.cons_prefix_cons.1 h).1
  | cons byte' key' ih =>
    cases key with
    | nil => cases (List.cons_prefix_cons.1 h).1
    | cons byte key =>
      have hrest : byte' :: markKey key' <+: byte :: (markKey key ++ data) :=
        (List.cons_prefix_cons.1 h).2
      obtain ⟨hbyte, hkey⟩ := List.cons_prefix_cons.1 hrest
      rw [hbyte, ih hkey]

theorem Aesgcm.plain_exact : Aesgcm.plain.Exact where
  decrypt_encrypt key nonce data := by
    change (if (markKey key).isPrefixOf (markKey key ++ data) then _ else _) = _
    rw [if_pos (List.isPrefixOf_iff_prefix.2 (List.prefix_append _ _))]
    exact congrArg some List.drop_left
  decrypt_other key key' nonce data h := by
    change (if (markKey key').isPrefixOf (markKey key ++ data) then _ else _) = _
    rw [if_neg fun hp => h (eq_of_markKey (List.isPrefixOf_iff_prefix.1 hp))]

def plainService : SyncService := ⟨.plain, .plain⟩

def noPeers (vault : Option (List UInt8)) : PeerState := ⟨⟨∅, []⟩, vault, []⟩

/-- A text as long as `token_urlsafe(40)` gives. -/
def tokenOf (c : Char) : String := String.ofList (List.replicate 54 c)

def northPeer : SyncPeerCreate := { name := "North", base_url := "https://north.example.org" }

end ScottyCore
