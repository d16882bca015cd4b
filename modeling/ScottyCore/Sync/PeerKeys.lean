import ScottyCore.Lib.Raise
import ScottyCore.Sync.Peers

namespace ScottyCore
open Python TransitionSystem SyncService
set_option autoImplicit true

variable {b : Backend} {svc : SyncService} {s : PeerState}

/-! ## The keys that were issued -/

/-- The key that an action issues, and to which peer. -/
def PeerAction.issues : PeerAction → Option (String × String)
  | create peer_id key _ => some (peer_id, key)
  | rotate peer_id key => some (peer_id, key)
  | _ => none

def issuedKeys (as : List PeerAction) : List (String × String) := as.filterMap PeerAction.issues

/-- The latest key issued to a peer. -/
def latestKey (as : List PeerAction) (peer_id : String) : Option String :=
  lastFor PeerAction.issues as peer_id

/-! ## The two tables -/

/-- The key row is for a plaintext. -/
def PeerApiKey.IsOf (c : CryptContext) (k : PeerApiKey) (key : String) : Prop :=
  (∃ salt, k.key_hash = c.hash salt key) ∧ k.key_prefix = sliceTo keyPrefixLen key

/-- The active keys of a peer. -/
def activeKeys (keys : List PeerApiKey) (peer_id : String) : List PeerApiKey :=
  keys.filter fun k => k.peer_id = peer_id ∧ k.is_active

/-- Each peer shows its active key, an active key is the latest that its peer was issued, and no
peer has two. -/
structure KeysMatch (c : CryptContext) (as : List PeerAction) (s : PeerState) : Prop where
  drawn : ∀ p ∈ s.store.sync_peers.rows, p.id ∈ s.drawn
  unkeyed : ∀ peer_id, peer_id ∉ s.drawn → activeKeys s.store.peer_api_keys peer_id = []
  single : ∀ peer_id, (activeKeys s.store.peer_api_keys peer_id).length ≤ 1
  latest : ∀ peer_id, ∀ k ∈ activeKeys s.store.peer_api_keys peer_id,
    ∃ key, latestKey as peer_id = some key ∧ k.IsOf c key
  shown : ∀ p ∈ s.store.sync_peers.rows, ∃ k ∈ activeKeys s.store.peer_api_keys p.id,
    p.our_key_for_them_hash = some k.key_hash ∧ p.our_key_for_them_prefix = some k.key_prefix
  long : ∀ issued ∈ issuedKeys as, issued.2.length = keyTotalLen

theorem keysMatch_fresh (c : CryptContext) (h : s.Fresh) : KeysMatch c [] s := by
  obtain ⟨hstore, hdrawn⟩ := h
  constructor
  · intro p hp
    rw [hstore] at hp
    exact absurd hp List.not_mem_nil
  · intro peer_id _
    rw [hstore]
    rfl
  · intro peer_id
    rw [hstore]
    exact Nat.zero_le 1
  · intro peer_id k hk
    rw [hstore] at hk
    exact absurd hk List.not_mem_nil
  · intro p hp
    rw [hstore] at hp
    exact absurd hp List.not_mem_nil
  · exact fun issued hi => absurd hi List.not_mem_nil

/-- Two rows of one peer that show the same key. -/
structure Shows (p q : PeerRow) : Prop where
  id : q.id = p.id
  hash : q.our_key_for_them_hash = p.our_key_for_them_hash
  prefix_eq : q.our_key_for_them_prefix = p.our_key_for_them_prefix

variable {c : CryptContext} {t : PeerState}

/-- An action that issues no key and touches none. -/
theorem KeysMatch.quiet (h : KeysMatch c as s) (ha : a.issues = none) (hdrawn : t.drawn = s.drawn)
    (hkeys : t.store.peer_api_keys = s.store.peer_api_keys)
    (hpeers : ∀ q ∈ t.store.sync_peers.rows, ∃ p ∈ s.store.sync_peers.rows, Shows p q) :
    KeysMatch c (as ++ [a]) t := by
  constructor
  · intro q hq
    obtain ⟨p, hp, hshows⟩ := hpeers q hq
    rw [hshows.id, hdrawn]
    exact h.drawn p hp
  · rw [hdrawn, hkeys]
    exact h.unkeyed
  · rw [hkeys]
    exact h.single
  · intro peer_id k hk
    rw [latestKey, lastFor_concat_of_none ha]
    exact h.latest peer_id k (hkeys ▸ hk)
  · intro q hq
    obtain ⟨p, hp, hshows⟩ := hpeers q hq
    obtain ⟨k, hk, hhash, hpre⟩ := h.shown p hp
    rw [hkeys, hshows.id, hshows.hash, hshows.prefix_eq]
    exact ⟨k, hk, hhash, hpre⟩
  · rw [issuedKeys, filterMap_concat, ha, Option.toList_none, List.append_nil]
    exact h.long

/-- A peer and its keys go. On SQLite the keys stay behind. -/
theorem KeysMatch.delete (h : KeysMatch c as s) (b : Backend) (peer_id : String)
    (ha : a.issues = none) :
    KeysMatch c (as ++ [a]) { s with store := s.store.deletePeer b peer_id } := by
  have hactive : ∀ peer_id', peer_id' ≠ peer_id →
      activeKeys (s.store.deletePeer b peer_id).peer_api_keys peer_id' =
        activeKeys s.store.peer_api_keys peer_id' := by
    intro peer_id' hne
    cases b with
    | sqlite => rfl
    | postgresql =>
      rw [activeKeys, PeerStore.deletePeer, List.filter_filter]
      apply List.filter_congr
      intro k _
      by_cases hk : k.peer_id = peer_id'
      · simp [hk, hne]
      · simp [hk]
  have hsub : ∀ peer_id', (activeKeys (s.store.deletePeer b peer_id).peer_api_keys peer_id').Sublist
      (activeKeys s.store.peer_api_keys peer_id') := by
    intro peer_id'
    cases b with
    | sqlite => exact List.Sublist.refl _
    | postgresql => exact List.filter_sublist.filter _
  constructor
  · intro p hp
    exact h.drawn p (List.mem_filter.1 hp).1
  · intro peer_id' hnew
    exact List.eq_nil_of_sublist_nil (h.unkeyed peer_id' hnew ▸ hsub peer_id')
  · intro peer_id'
    exact (hsub peer_id').length_le.trans (h.single peer_id')
  · intro peer_id' k hk
    rw [latestKey, lastFor_concat_of_none ha]
    exact h.latest peer_id' k ((hsub peer_id').subset hk)
  · intro p hp
    obtain ⟨hp, hne⟩ := List.mem_filter.1 hp
    obtain ⟨k, hk, hshown⟩ := h.shown p hp
    refine ⟨k, ?_, hshown⟩
    rw [hactive p.id (of_decide_eq_true hne)]
    exact hk
  · rw [issuedKeys, filterMap_concat, ha, Option.toList_none, List.append_nil]
    exact h.long

/-- A key is issued: it is the one active key of its peer, which shows it. -/
theorem KeysMatch.issue (h : KeysMatch c as s) (ha : a.issues = some (peer_id, key))
    (hlong : key.length = keyTotalLen) (hk : k.IsOf c key) (hdrawn : peer_id ∈ t.drawn)
    (hmono : ∀ peer_id' ∈ s.drawn, peer_id' ∈ t.drawn)
    (hkeys : ∀ peer_id', activeKeys t.store.peer_api_keys peer_id' =
      if peer_id' = peer_id then [k] else activeKeys s.store.peer_api_keys peer_id')
    (hpeers : ∀ q ∈ t.store.sync_peers.rows,
      (q.id = peer_id ∧ q.our_key_for_them_hash = some k.key_hash ∧
          q.our_key_for_them_prefix = some k.key_prefix) ∨
        (q.id ≠ peer_id ∧ q ∈ s.store.sync_peers.rows)) :
    KeysMatch c (as ++ [a]) t := by
  constructor
  · intro q hq
    rcases hpeers q hq with ⟨hid, _⟩ | ⟨_, hq⟩
    · rw [hid]
      exact hdrawn
    · exact hmono _ (h.drawn q hq)
  · intro peer_id' hnew
    have hne : peer_id' ≠ peer_id := by
      rintro rfl
      exact hnew hdrawn
    rw [hkeys, if_neg hne]
    exact h.unkeyed peer_id' fun hold => hnew (hmono _ hold)
  · intro peer_id'
    rw [hkeys]
    split
    · exact Nat.le_refl 1
    · exact h.single peer_id'
  · intro peer_id' k' hk'
    rw [hkeys] at hk'
    rw [latestKey, lastFor_concat_of_some ha]
    split
    · rename_i he
      rw [if_pos he, List.mem_singleton] at hk'
      rw [hk']
      exact ⟨key, rfl, hk⟩
    · rename_i he
      rw [if_neg he] at hk'
      exact h.latest peer_id' k' hk'
  · intro q hq
    rcases hpeers q hq with ⟨hid, hshown⟩ | ⟨hid, hq⟩
    · refine ⟨k, ?_, hshown⟩
      rw [hkeys, if_pos hid]
      exact List.mem_singleton_self k
    · rw [hkeys, if_neg hid]
      exact h.shown q hq
  · intro issued hi
    rw [issuedKeys, filterMap_concat, ha, Option.toList_some] at hi
    rcases List.mem_append.1 hi with hi | hi
    · exact h.long issued hi
    · rw [List.mem_singleton.1 hi]
      exact hlong

/-! ## One step -/

theorem activeKeys_createPeerApiKey (keys : List PeerApiKey) (k : PeerApiKey)
    (ha : k.is_active = true) (h : activeKeys keys k.peer_id = []) (peer_id : String) :
    activeKeys (keys ++ [k]) peer_id =
      if peer_id = k.peer_id then [k] else activeKeys keys peer_id := by
  rw [activeKeys, List.filter_append, ← activeKeys]
  split
  · rename_i he
    rw [he, h]
    simp [ha]
  · rename_i he
    simp [Ne.symm he]

theorem activeKeys_deactivated (store : PeerStore) (peer_id : String) (now : DateTime)
    (peer_id' : String) :
    activeKeys (store.deactivatePeerKeys peer_id now).peer_api_keys peer_id' =
      if peer_id' = peer_id then [] else activeKeys store.peer_api_keys peer_id' := by
  rw [PeerStore.deactivatePeerKeys]
  simp only
  induction store.peer_api_keys with
  | nil => split <;> rfl
  | cons k keys ih =>
    rw [List.map_cons, activeKeys, List.filter_cons, ← activeKeys, ih, activeKeys, activeKeys,
      List.filter_cons]
    by_cases hid : peer_id' = peer_id
    · subst hid
      by_cases hk : k.peer_id = peer_id' ∧ k.is_active = true
      · simp [hk]
      · simp [hk]
    · by_cases hk : k.peer_id = peer_id ∧ k.is_active = true
      · simp [hk, hid, Ne.symm hid]
      · simp [hk, hid]

theorem shows_of_fields {fields : PeerFields} (hhash : fields.our_key_for_them_hash = none)
    (hpre : fields.our_key_for_them_prefix = none) (p : PeerRow) :
    Shows p (fields.apply p) where
  id := rfl
  hash := by rw [PeerFields.apply, hhash]; rfl
  prefix_eq := by rw [PeerFields.apply, hpre]; rfl

theorem Shows.refl (p : PeerRow) : Shows p p := ⟨rfl, rfl, rfl⟩

/-- A row of a peer in place of another one that shows the same key. -/
theorem shows_of_upsert {t : KeyedTable PeerRow PeerRow.key} (hp : t.find peer_id = some p)
    (hshows : Shows p q) (hr : r ∈ (t.upsert q).rows) : ∃ p ∈ t.rows, Shows p r := by
  rcases KeyedTable.mem_upsert_iff.1 hr with rfl | ⟨hr, _⟩
  · exact ⟨p, KeyedTable.mem_of_find hp, hshows⟩
  · exact ⟨r, hr, .refl r⟩

theorem id_of_getPeer {store : PeerStore} (h : store.getPeer peer_id = some p) : p.id = peer_id := by
  have hkey : p.key = peer_id := KeyedTable.key_of_find h
  exact hkey

theorem updatePeerFields_eq_some {store store' : PeerStore}
    (h : store.updatePeerFields peer_id fields = some store') :
    ∃ p, store.getPeer peer_id = some p ∧
      store' = { store with sync_peers := store.sync_peers.upsert (fields.apply p) } := by
  obtain ⟨p, hp, rfl⟩ := Option.map_eq_some_iff.1 h
  exact ⟨p, hp, rfl⟩

theorem migratePeer_shows (key : List UInt8) (nonce : String → List UInt8) (p : PeerRow) :
    Shows p (svc.migratePeer key nonce p) := by
  rw [migratePeer]
  split
  · exact .refl p
  · exact .refl p
  · split
    · exact .refl p
    · exact ⟨rfl, rfl, rfl⟩

/-- What the step that creates a peer leaves behind. -/
theorem createPeer_ok {store store' : PeerStore}
    (h : svc.createPeer data peer_id token salt vault nonce store = .ok (key, store')) :
    store.getPeer peer_id = none ∧ key = sliceTo keyTotalLen token ∧
      ∃ p : PeerRow, p.id = peer_id ∧
        p.our_key_for_them_hash = some (svc.pwd_ctx.hash salt key) ∧
        p.our_key_for_them_prefix = some (sliceTo keyPrefixLen key) ∧
        p.their_key_for_us = (data.their_key_for_us.filter (· ≠ "")).map
          (fun key => svc.encryptTheirKey vault key nonce) ∧
        store' = ⟨store.sync_peers.upsert p, store.peer_api_keys ++
          [⟨peer_id, svc.pwd_ctx.hash salt key, sliceTo keyPrefixLen key, true, none⟩]⟩ := by
  obtain ⟨created, hcreated, h⟩ := bind_eq_ok.1 h
  rw [PeerStore.createPeer] at hcreated
  split at hcreated
  · cases hcreated
  · rename_i hnone
    cases hcreated
    cases h
    refine ⟨hnone, rfl, _, rfl, rfl, rfl, ?_, rfl⟩
    cases data.their_key_for_us with
    | none => rfl
    | some text =>
      by_cases hempty : text = ""
      · subst hempty
        rfl
      · have hne : decide (text ≠ "") = true := decide_eq_true hempty
        rw [Option.filter_some, if_pos hne]
        simp

theorem rotatePeerKey_ok {store store' : PeerStore}
    (h : svc.rotatePeerKey peer_id token salt now store = .ok (key, store')) :
    ∃ p, store.getPeer peer_id = some p ∧ key = sliceTo keyTotalLen token ∧
      store' = ⟨store.sync_peers.upsert { p with
          our_key_for_them_hash := some (svc.pwd_ctx.hash salt key)
          our_key_for_them_prefix := some (sliceTo keyPrefixLen key) },
        (store.deactivatePeerKeys peer_id now).peer_api_keys ++
          [⟨peer_id, svc.pwd_ctx.hash salt key, sliceTo keyPrefixLen key, true, none⟩]⟩ := by
  rw [rotatePeerKey] at h
  simp only at h
  split at h
  · cases h
  · rename_i p hp
    cases h
    refine ⟨p, hp, rfl, ?_⟩
    rw [PeerStore.updatePeerFields]
    change Option.getD (Option.map _ (store.getPeer peer_id)) _ = _
    rw [hp]
    rfl

theorem updatePeer_ok {store store' : PeerStore}
    (h : svc.updatePeer peer_id data vault nonce store = .ok store') :
    ∃ p, store.getPeer peer_id = some p ∧ store' = { store with
      sync_peers := store.sync_peers.upsert ((svc.updateFields vault nonce data).apply p) } := by
  rw [SyncService.updatePeer] at h
  split at h
  · cases h
  · rename_i hupdate
    cases h
    exact updatePeerFields_eq_some hupdate

theorem deletePeer_ok {store store' : PeerStore}
    (h : SyncService.deletePeer b peer_id store = .ok store') :
    store' = store.deletePeer b peer_id := by
  rw [SyncService.deletePeer] at h
  split at h
  · cases h
  · cases h
    rfl

theorem length_issuedKey (h : token.length = 54) :
    (sliceTo keyTotalLen token).length = keyTotalLen := by
  rw [length_sliceTo, h]
  rfl

theorem isOf_issued (c : CryptContext) (peer_id key : String) (salt : Nat) :
    PeerApiKey.IsOf c
      ⟨peer_id, c.hash salt key, sliceTo keyPrefixLen key, true, none⟩ key :=
  ⟨⟨salt, rfl⟩, rfl⟩

theorem keysMatch_step (h : KeysMatch svc.pwd_ctx as s) (hstep : PeerStep b svc s a t) :
    KeysMatch svc.pwd_ctx (as ++ [a]) t := by
  cases hstep with
  | create hnew htoken hcreate =>
    rename_i peer_id token data salt nonce key store
    obtain ⟨_, rfl, p, rfl, hhash, hpre, _, rfl⟩ := createPeer_ok hcreate
    refine h.issue rfl (length_issuedKey htoken) (isOf_issued _ p.id _ salt) List.mem_cons_self
      ?_ ?_ ?_
    · exact fun _ hold => List.mem_cons_of_mem _ hold
    · exact activeKeys_createPeerApiKey _ _ rfl (h.unkeyed p.id hnew)
    · intro q hq
      rcases KeyedTable.mem_upsert_iff.1 hq with rfl | ⟨hq, hne⟩
      · exact .inl ⟨rfl, hhash, hpre⟩
      · exact .inr ⟨hne, hq⟩
  | update hupdate =>
    obtain ⟨p, hp, rfl⟩ := updatePeer_ok hupdate
    refine h.quiet rfl rfl rfl fun q hq => ?_
    exact shows_of_upsert hp (shows_of_fields rfl rfl p) hq
  | delete hdelete =>
    rw [deletePeer_ok hdelete]
    exact h.delete b _ rfl
  | rotate htoken hrotate =>
    rename_i peer_id token salt now key store
    obtain ⟨p, hp, rfl, rfl⟩ := rotatePeerKey_ok hrotate
    obtain rfl : p.id = peer_id := id_of_getPeer hp
    refine h.issue rfl (length_issuedKey htoken) (isOf_issued _ p.id _ salt)
      (h.drawn p (KeyedTable.mem_of_find hp)) (fun _ hold => hold) ?_ ?_
    · intro peer_id'
      have hgone := activeKeys_deactivated s.store p.id now
      rw [activeKeys_createPeerApiKey _ _ rfl (by rw [hgone, if_pos rfl]), hgone]
      split
      · rfl
      · rfl
    · intro q hq
      rcases KeyedTable.mem_upsert_iff.1 hq with rfl | ⟨hq, hne⟩
      · exact .inl ⟨rfl, rfl, rfl⟩
      · exact .inr ⟨hne, hq⟩
  | migrate =>
    rename_i nonce
    cases hv : s.vault with
    | none => exact h.quiet rfl rfl rfl fun q hq => ⟨q, hq, .refl q⟩
    | some key =>
      refine h.quiet rfl rfl rfl fun q hq => ?_
      obtain ⟨p, hp, rfl⟩ := List.mem_map.1 hq
      exact ⟨p, hp, migratePeer_shows key nonce p⟩
  | vault => exact h.quiet rfl rfl rfl fun q hq => ⟨q, hq, .refl q⟩
  | probe => exact h.quiet rfl rfl rfl fun q hq => ⟨q, hq, .refl q⟩
  | pull => exact h.quiet rfl rfl rfl fun q hq => ⟨q, hq, .refl q⟩
  | push => exact h.quiet rfl rfl rfl fun q hq => ⟨q, hq, .refl q⟩
  | answered =>
    rename_i peer_id node_id
    cases hupdate : s.store.updatePeerFields peer_id { peer_node_id := some node_id } with
    | none =>
      rw [recordProbe, hupdate]
      exact h.quiet rfl rfl rfl fun q hq => ⟨q, hq, .refl q⟩
    | some store =>
      obtain ⟨p, hp, rfl⟩ := updatePeerFields_eq_some hupdate
      rw [recordProbe, hupdate]
      refine h.quiet rfl rfl rfl fun q hq => ?_
      exact shows_of_upsert hp (shows_of_fields rfl rfl p) hq
  | recorded =>
    rw [PeerStore.recordSync]
    split
    · exact h.quiet rfl rfl rfl fun q hq => ⟨q, hq, .refl q⟩
    · rename_i p hp
      refine h.quiet rfl rfl rfl fun q hq => ?_
      refine shows_of_upsert hp ?_ hq
      exact ⟨rfl, rfl, rfl⟩

theorem keysMatch_run (h : Run (PeerStep b svc) s as t) (hs : s.Fresh) :
    KeysMatch svc.pwd_ctx as t := by
  induction h with
  | nil => exact keysMatch_fresh _ hs
  | snoc _ hstep ih => exact keysMatch_step ih hstep

/-! ## Authentication -/

theorem authenticatePeer_raises (svc : SyncService) (bearer : String) (store : PeerStore) :
    (∃ p, svc.authenticatePeer bearer store = .ok p) ∨
      ∃ message, svc.authenticatePeer bearer store = .error (.authentication message) := by
  rw [authenticatePeer]
  split
  · exact .inr ⟨_, rfl⟩
  · split
    · exact .inr ⟨_, rfl⟩
    · split
      · split
        · exact .inr ⟨_, rfl⟩
        · split
          · exact .inl ⟨_, rfl⟩
          · exact .inr ⟨_, rfl⟩
      · exact .inr ⟨_, rfl⟩

/-- The peer that is let in owns an active key row that the text verifies against. -/
theorem authenticatePeer_ok {store : PeerStore} (h : svc.authenticatePeer bearer store = .ok p) :
    p.enabled = true ∧ store.getPeer p.id = some p ∧ ∃ k ∈ activeKeys store.peer_api_keys p.id,
      svc.pwd_ctx.verify bearer k.key_hash = true := by
  rw [authenticatePeer] at h
  split at h
  · cases h
  · split at h
    · cases h
    · rename_i k hk
      have hactive := List.find?_some hk
      rw [decide_eq_true_iff] at hactive
      split at h
      · rename_i hverify
        split at h
        · cases h
        · rename_i q hq
          split at h
          · rename_i henabled
            cases h
            have hid : p.id = k.peer_id := id_of_getPeer hq
            refine ⟨henabled, hid ▸ hq, k, ?_, hverify⟩
            exact List.mem_filter.2
              ⟨List.mem_of_find?_eq_some hk, decide_eq_true ⟨hid.symm, hactive.2⟩⟩
          · cases h
      · cases h

/-- Keys that were issued with one prefix are one key, issued once. -/
theorem eq_of_prefix (hd : ((issuedKeys as).map fun issued =>
      sliceTo keyPrefixLen issued.2).Nodup)
    (h : latestKey as peer_id = some key) (h' : latestKey as peer_id' = some key')
    (he : sliceTo keyPrefixLen key = sliceTo keyPrefixLen key') :
    peer_id = peer_id' ∧ key = key' :=
  Prod.mk.inj (List.inj_on_of_nodup_map hd (mem_of_lastFor h) (mem_of_lastFor h') he)

theorem authenticatePeer_ok_iff (hc : svc.pwd_ctx.Exact) (h : KeysMatch svc.pwd_ctx as s)
    (hd : ((issuedKeys as).map fun issued => sliceTo keyPrefixLen issued.2).Nodup) :
    svc.authenticatePeer bearer s.store = .ok p ↔
      s.store.getPeer p.id = some p ∧ p.enabled = true ∧ latestKey as p.id = some bearer := by
  constructor
  · intro hok
    obtain ⟨henabled, hp, k, hk, hverify⟩ := authenticatePeer_ok hok
    obtain ⟨key, hlatest, ⟨salt, hhash⟩, _⟩ := h.latest p.id k hk
    rw [hhash, hc.verify_iff] at hverify
    exact ⟨hp, henabled, hverify ▸ hlatest⟩
  · rintro ⟨hp, henabled, hlatest⟩
    obtain ⟨k, hk, _⟩ := h.shown p (KeyedTable.mem_of_find hp)
    obtain ⟨hmem, hactive⟩ := List.mem_filter.1 hk
    obtain ⟨hkid, hactive⟩ := of_decide_eq_true hactive
    obtain ⟨key, hkey, _, hpre⟩ := h.latest p.id k hk
    obtain rfl : bearer = key := Option.some.inj (hlatest.symm.trans hkey)
    have hlen : bearer.length = keyTotalLen := h.long _ (mem_of_lastFor hlatest)
    have hshort : ¬ (bearer = "" ∨ bearer.length < keyPrefixLen) := by
      rw [hlen]
      rintro (rfl | hlt)
      · cases hlen
      · exact absurd hlt (by decide)
    rw [authenticatePeer, if_neg hshort]
    -- The row that the prefix finds is of the same key, so of the same peer.
    cases hfind : s.store.getActiveKeyByPrefix (sliceTo keyPrefixLen bearer) with
    | none =>
      have hnone := List.find?_eq_none.1 hfind k hmem
      exact absurd (decide_eq_true ⟨hpre, hactive⟩) hnone
    | some k' =>
      have hfound := List.find?_some hfind
      obtain ⟨hpre', hactive'⟩ := of_decide_eq_true hfound
      obtain ⟨key', hkey', ⟨salt, hhash⟩, hof⟩ := h.latest k'.peer_id k'
        (List.mem_filter.2 ⟨List.mem_of_find?_eq_some hfind, decide_eq_true ⟨rfl, hactive'⟩⟩)
      obtain ⟨hid, rfl⟩ := eq_of_prefix hd hlatest hkey' (hpre'.symm.trans hof)
      have hverify : svc.pwd_ctx.verify bearer k'.key_hash = true := by
        rw [hhash, hc.verify_iff]
      simp only [hverify, if_true, ← hid, hp, henabled]

/-- In every order of creating, rotating, updating and deleting peers, no peer has two active keys,
every peer shows its active one, and exactly the latest key of an enabled peer lets it in. -/
theorem peer_keys_exact {s₀ : PeerState} (hc : svc.pwd_ctx.Exact)
    (hrun : Run (PeerStep b svc) s₀ as s) (hs₀ : s₀.Fresh)
    (hd : ((issuedKeys as).map fun issued => sliceTo keyPrefixLen issued.2).Nodup) :
    (∀ peer_id, (activeKeys s.store.peer_api_keys peer_id).length ≤ 1) ∧
      (∀ p ∈ s.store.sync_peers.rows, ∃ k ∈ activeKeys s.store.peer_api_keys p.id,
        p.our_key_for_them_hash = some k.key_hash ∧
          p.our_key_for_them_prefix = some k.key_prefix) ∧
      (∀ bearer p, svc.authenticatePeer bearer s.store = .ok p ↔
        s.store.getPeer p.id = some p ∧ p.enabled = true ∧ latestKey as p.id = some bearer) ∧
      ∀ bearer, (∀ p ∈ s.store.sync_peers.rows, p.enabled = true →
          latestKey as p.id ≠ some bearer) →
        ∃ message, svc.authenticatePeer bearer s.store = .error (.authentication message) := by
  have h := keysMatch_run hrun hs₀
  refine ⟨h.single, h.shown, fun bearer p => authenticatePeer_ok_iff hc h hd, ?_⟩
  intro bearer hnone
  rcases authenticatePeer_raises svc bearer s.store with ⟨p, hok⟩ | herror
  · obtain ⟨hp, henabled, hlatest⟩ := (authenticatePeer_ok_iff hc h hd).1 hok
    exact (hnone p (KeyedTable.mem_of_find hp) henabled hlatest).elim
  · exact herror

/-- A peer is created and its key rotated: the new key lets it in, the old one no more. -/
theorem peer_keys_exact_rotated : ∃ as s, Run (PeerStep .sqlite plainService) (noPeers none) as s ∧
    (∃ p, plainService.authenticatePeer (sliceTo keyTotalLen (tokenOf 'b')) s.store = .ok p) ∧
      ∃ message, plainService.authenticatePeer (sliceTo keyTotalLen (tokenOf 'a')) s.store =
        .error (.authentication message) := by
  obtain ⟨created, hcreate⟩ : ∃ store, plainService.createPeer northPeer "north" (tokenOf 'a') 0
    none [] ⟨∅, []⟩ = .ok (sliceTo keyTotalLen (tokenOf 'a'), store) := ⟨_, rfl⟩
  obtain ⟨rotated, hrotate, hnorth⟩ : ∃ store, plainService.rotatePeerKey "north" (tokenOf 'b') 1
      ⟨2024, 6, 1, 12, 0, 0, 0, some 0, by decide⟩ created =
        .ok (sliceTo keyTotalLen (tokenOf 'b'), store) ∧
      (∃ p, store.getPeer "north" = some p ∧ p.enabled = true) ∧
        ∀ p ∈ store.sync_peers.rows, p.id = "north" := by
    cases hcreate
    refine ⟨_, rfl, ⟨_, rfl, rfl⟩, fun p hp => ?_⟩
    rw [List.mem_singleton.1 hp]
    rfl
  have hrun : Run (PeerStep .sqlite plainService) (noPeers none)
      [.create "north" (sliceTo keyTotalLen (tokenOf 'a')) northPeer,
        .rotate "north" (sliceTo keyTotalLen (tokenOf 'b'))] ⟨rotated, none, ["north"]⟩ :=
    .snoc (.snoc .nil (.create List.not_mem_nil (by decide) hcreate)) (.rotate (by decide) hrotate)
  obtain ⟨_, _, hlets, hraises⟩ := peer_keys_exact CryptContext.plain_exact hrun ⟨rfl, rfl⟩
    (by decide +kernel)
  obtain ⟨⟨p, hp, henabled⟩, hids⟩ := hnorth
  have hid : p.id = "north" := id_of_getPeer hp
  refine ⟨_, _, hrun, ⟨p, (hlets _ p).2 ⟨?_, henabled, ?_⟩⟩, hraises _ ?_⟩
  · rw [hid]
    exact hp
  · rw [hid]
    decide +kernel
  · intro q hq _
    rw [hids q hq]
    decide +kernel

end ScottyCore
