import ScottyCore.Sync.Cursor
import ScottyCore.Sync.PeerKeys

namespace ScottyCore
open Python TransitionSystem SyncService
set_option autoImplicit true

variable {b : Backend} {svc : SyncService} {s t : PeerState}

/-! ## One stored text -/

namespace SyncService

theorem startsWith_encryptPeerKey (svc : SyncService) (plaintext : String)
    (key nonce : List UInt8) :
    startsWith (svc.encryptPeerKey plaintext key nonce) vaultPrefix = true :=
  startsWith_append _ _

/-- What the vault encodes is read back as nonce and ciphertext. -/
theorem decryptPeerKey_encryptPeerKey (svc : SyncService) (plaintext : String)
    (key key' nonce : List UInt8) :
    svc.decryptPeerKey (svc.encryptPeerKey plaintext key nonce) key' =
      (svc.aesgcm.decrypt key' nonce (svc.aesgcm.encrypt key nonce (encodeUtf8 plaintext))).bind
        decodeUtf8 := by
  have hpre : splitOnce ':' (svc.encryptPeerKey plaintext key nonce).toList =
      some ("vault".toList, hex nonce ++ ':' ::
        hex (svc.aesgcm.encrypt key nonce (encodeUtf8 plaintext))) := by
    rw [encryptPeerKey, String.toList_append, String.toList_ofList]
    have hvault : ∀ c ∈ "vault".toList, c ≠ ':' := by
      rintro c hc rfl
      revert hc
      decide +kernel
    exact splitOnce_append hvault _
  have hnonce := splitOnce_append (fun c (hc : c ∈ hex nonce) => hex_ne_colon hc)
    (hex (svc.aesgcm.encrypt key nonce (encodeUtf8 plaintext)))
  simp only [decryptPeerKey, hpre, hnonce, fromHex_hex, Option.bind_eq_bind, Option.bind_some]

theorem decryptPeerKey_same (hg : svc.aesgcm.Exact) (plaintext : String)
    (key nonce : List UInt8) :
    svc.decryptPeerKey (svc.encryptPeerKey plaintext key nonce) key = some plaintext := by
  rw [decryptPeerKey_encryptPeerKey, hg.decrypt_encrypt, Option.bind_some,
    decodeUtf8_encodeUtf8]

theorem decryptPeerKey_other (hg : svc.aesgcm.Exact) (plaintext : String)
    {key key' : List UInt8} (nonce : List UInt8) (h : key' ≠ key) :
    svc.decryptPeerKey (svc.encryptPeerKey plaintext key nonce) key' = none := by
  rw [decryptPeerKey_encryptPeerKey, hg.decrypt_other _ _ _ _ h, Option.bind_none]

/-- A text that some vault key opens. -/
def Sealed (svc : SyncService) (text : String) : Prop :=
  startsWith text vaultPrefix = true ∧ ∃ key plaintext, svc.decryptPeerKey text key = some plaintext

/-- How a plaintext is kept: as it is, unless a vault key would open it, or encoded. -/
inductive Keeps (svc : SyncService) (plaintext : String) : String → Prop where
  | plain : ¬ svc.Sealed plaintext → Keeps svc plaintext plaintext
  | encoded : plaintext ≠ "" → Keeps svc plaintext (svc.encryptPeerKey plaintext key nonce)

/-- Whatever the vault is now, a kept text is read as its plaintext or not at all. -/
theorem Keeps.decrypts (hg : svc.aesgcm.Exact) (h : Keeps svc plaintext stored)
    (hd : svc.decryptTheirKey vault (some stored) = some decrypted) : decrypted = plaintext := by
  rw [decryptTheirKey] at hd
  cases h with
  | plain hopen =>
    split at hd
    · rename_i hpre
      obtain ⟨key, _, hkey⟩ := Option.bind_eq_some_iff.1 hd
      exact (hopen ⟨hpre, key, decrypted, hkey⟩).elim
    · exact (Option.some.inj hd).symm
  | encoded _ =>
    rename_i key nonce _
    rw [startsWith_encryptPeerKey, if_pos rfl] at hd
    obtain ⟨key', _, hkey⟩ := Option.bind_eq_some_iff.1 hd
    by_cases he : key' = key
    · rw [he, decryptPeerKey_same hg] at hkey
      exact (Option.some.inj hkey).symm
    · rw [decryptPeerKey_other hg plaintext nonce he] at hkey
      cases hkey

/-- A kept text that no vault key opens is the plaintext. -/
theorem Keeps.of_open (hg : svc.aesgcm.Exact) (h : Keeps svc plaintext stored)
    (hopen : ¬ svc.Sealed stored) : stored = plaintext := by
  cases h with
  | plain => rfl
  | encoded =>
    rename_i key nonce _
    exact (hopen ⟨startsWith_encryptPeerKey _ _ _ _, key, plaintext,
      decryptPeerKey_same hg plaintext key nonce⟩).elim

theorem not_sealed_empty : ¬ svc.Sealed "" := by
  rintro ⟨h, _⟩
  cases h

/-- What `create_peer` and `update_peer` store of a text. -/
theorem keeps_encryptTheirKey (hne : plaintext ≠ "")
    (hopen : vault = none → ¬ svc.Sealed plaintext) (nonce : List UInt8) :
    Keeps svc plaintext (svc.encryptTheirKey vault plaintext nonce) := by
  cases vault with
  | none => exact .plain (hopen rfl)
  | some key => exact .encoded hne

/-! ## Migration -/

/-- A text that a migration leaves: none, empty or with the prefix. -/
def Migrated (p : PeerRow) : Prop :=
  ∀ stored, p.their_key_for_us = some stored → stored = "" ∨ startsWith stored vaultPrefix = true

theorem migratePeer_cases (svc : SyncService) (key : List UInt8) (nonce : String → List UInt8)
    (p : PeerRow) : (Migrated p ∧ svc.migratePeer key nonce p = p) ∨
      ∃ stored, p.their_key_for_us = some stored ∧ stored ≠ "" ∧
        startsWith stored vaultPrefix = false ∧ svc.migratePeer key nonce p =
          { p with their_key_for_us := some (svc.encryptPeerKey stored key (nonce p.id)) } := by
  rw [migratePeer, Migrated]
  split
  · rename_i hnone
    rw [hnone]
    exact .inl ⟨fun _ h => (by cases h), rfl⟩
  · rename_i hempty
    rw [hempty]
    exact .inl ⟨fun _ h => .inl (Option.some.inj h).symm, rfl⟩
  · rename_i stored hne hstored
    split
    · rename_i hpre
      rw [hstored]
      exact .inl ⟨fun _ h => .inr (Option.some.inj h ▸ hpre), rfl⟩
    · rename_i hpre
      exact .inr ⟨stored, hstored, hne, Bool.eq_false_iff.2 hpre, rfl⟩

/-- Under the key that it migrates to, a peer's text is read as before. -/
theorem decryptTheirKey_migratePeer (hg : svc.aesgcm.Exact) (key : List UInt8)
    (nonce : String → List UInt8) (p : PeerRow) :
    svc.decryptTheirKey (some key) (svc.migratePeer key nonce p).their_key_for_us =
      svc.decryptTheirKey (some key) p.their_key_for_us := by
  rcases migratePeer_cases svc key nonce p with ⟨_, h⟩ | ⟨stored, hstored, _, hpre, h⟩
  · rw [h]
  · rw [h, hstored, decryptTheirKey, startsWith_encryptPeerKey, if_pos rfl, Option.bind_some,
      decryptPeerKey_same hg, decryptTheirKey, hpre]
    rfl

theorem migrated_migratePeer (svc : SyncService) (key : List UInt8)
    (nonce : String → List UInt8) (p : PeerRow) : Migrated (svc.migratePeer key nonce p) := by
  rcases migratePeer_cases svc key nonce p with ⟨h, he⟩ | ⟨_, _, _, _, he⟩
  · rw [he]
    exact h
  · rw [he]
    intro _ h
    cases h
    exact .inr (startsWith_encryptPeerKey _ _ _ _)

theorem migratePeer_of_migrated (h : Migrated p) (key : List UInt8)
    (nonce : String → List UInt8) : svc.migratePeer key nonce p = p := by
  rcases migratePeer_cases svc key nonce p with ⟨_, he⟩ | ⟨stored, hstored, hne, hpre, _⟩
  · exact he
  · rcases h stored hstored with rfl | hp
    · exact (hne rfl).elim
    · rw [hpre] at hp
      cases hp

/-- Migrating never changes what a peer's key reads as. -/
theorem decryptTheirKey_migrate (hg : svc.aesgcm.Exact) (vault : Option (List UInt8))
    (nonce : String → List UInt8) (store : PeerStore) (peer_id : String) :
    ((svc.migratePlaintextPeerKeys vault nonce store).getPeer peer_id).map
        (fun p => svc.decryptTheirKey vault p.their_key_for_us) =
      (store.getPeer peer_id).map fun p => svc.decryptTheirKey vault p.their_key_for_us := by
  cases vault with
  | none => rfl
  | some key =>
    rw [migratePlaintextPeerKeys, PeerStore.getPeer, KeyedTable.find_mapRows, Option.map_map,
      PeerStore.getPeer]
    congr 1
    funext p
    exact decryptTheirKey_migratePeer hg key nonce p

/-- Migrating again changes nothing. -/
theorem migrate_migrate (svc : SyncService) (vault : Option (List UInt8))
    (nonce nonce' : String → List UInt8) (store : PeerStore) :
    svc.migratePlaintextPeerKeys vault nonce' (svc.migratePlaintextPeerKeys vault nonce store) =
      svc.migratePlaintextPeerKeys vault nonce store := by
  cases vault with
  | none => rfl
  | some key =>
    rw [migratePlaintextPeerKeys, migratePlaintextPeerKeys, PeerStore.mk.injEq,
      KeyedTable.mapRows, KeyedTable.mk.injEq]
    refine ⟨?_, rfl⟩
    change (store.sync_peers.rows.map _).map _ = store.sync_peers.rows.map _
    rw [List.map_map]
    apply List.map_congr_left
    intro p _
    exact migratePeer_of_migrated (migrated_migratePeer svc key nonce p) key nonce'

end SyncService

/-! ## The texts that were supplied -/

/-- The text that an action supplies for a peer. -/
def PeerAction.supplies : PeerAction → Option (String × String)
  | create peer_id _ data => data.their_key_for_us.map fun text => (peer_id, text)
  | update peer_id data => data.their_key_for_us.map fun text => (peer_id, text)
  | _ => none

/-- The key that an outgoing call carries, and to which peer. -/
def PeerAction.sends : PeerAction → Option (String × String)
  | probe peer_id key => some (peer_id, key)
  | pull peer_id key => some (peer_id, key)
  | push peer_id key => some (peer_id, key)
  | _ => none

/-- The text last supplied for a peer. -/
def lastSupplied (as : List PeerAction) (peer_id : String) : Option String :=
  lastFor PeerAction.supplies as peer_id

/-- A peer keeps the text last supplied for it. -/
def TextKept (svc : SyncService) (as : List PeerAction) (p : PeerRow) : Prop :=
  ∀ stored, p.their_key_for_us = some stored →
    ∃ plaintext, lastSupplied as p.id = some plaintext ∧ svc.Keeps plaintext stored

theorem TextKept.congr (h : TextKept svc as p) (hid : q.id = p.id)
    (htext : q.their_key_for_us = p.their_key_for_us) : TextKept svc as q := by
  intro stored hstored
  rw [hid]
  exact h stored (htext ▸ hstored)

theorem TextKept.concat (h : TextKept svc as p) (ha : ∀ text, a.supplies ≠ some (p.id, text)) :
    TextKept svc (as ++ [a]) p := by
  intro stored hstored
  rw [lastSupplied, lastFor_concat_of_ne ha]
  exact h stored hstored

theorem TextKept.supplied (ha : a.supplies = some (p.id, plaintext))
    (h : ∀ stored, p.their_key_for_us = some stored → svc.Keeps plaintext stored) :
    TextKept svc (as ++ [a]) p := by
  intro stored hstored
  refine ⟨plaintext, ?_, h stored hstored⟩
  rw [lastSupplied, lastFor_concat_of_some ha, if_pos rfl]

theorem TextKept.migrate (h : TextKept svc as p) (key : List UInt8)
    (nonce : String → List UInt8) : TextKept svc as (svc.migratePeer key nonce p) := by
  rcases migratePeer_cases svc key nonce p with ⟨_, he⟩ | ⟨text, htext, hne, hpre, he⟩
  · rw [he]
    exact h
  · rw [he]
    intro stored hstored
    cases hstored
    obtain ⟨plaintext, hlast, hkeeps⟩ := h text htext
    refine ⟨plaintext, hlast, ?_⟩
    cases hkeeps with
    | plain => exact .encoded hne
    | encoded =>
      rw [startsWith_encryptPeerKey] at hpre
      cases hpre

/-! ## Runs -/

/-- Every call carries the text last supplied before it for the peer that it goes to. -/
def SendsSupplied (as : List PeerAction) : Prop :=
  ∀ pre a post peer_id key, as = pre ++ a :: post → a.sends = some (peer_id, key) →
    lastSupplied pre peer_id = some key

theorem sendsSupplied_concat (h : SendsSupplied as)
    (ha : ∀ peer_id key, a.sends = some (peer_id, key) → lastSupplied as peer_id = some key) :
    SendsSupplied (as ++ [a]) := by
  intro pre a' post peer_id key he hsends
  rcases List.eq_nil_or_concat post with rfl | ⟨post', a'', rfl⟩
  · obtain ⟨rfl, hlast⟩ := List.append_inj' he rfl
    cases hlast
    exact ha peer_id key hsends
  · rw [List.concat_eq_append, ← List.cons_append, ← List.append_assoc] at he
    obtain ⟨rfl, _⟩ := List.append_inj' he rfl
    exact h pre a' post' peer_id key rfl hsends

/-- No text that a vault key would open is supplied while there is no vault, and no peer is probed
whose stored text a vault key opens. -/
def Unsealed (svc : SyncService) (s : PeerState) : PeerAction → Prop
  | .create _ _ data | .update _ data =>
    s.vault = none → ∀ text, data.their_key_for_us = some text → ¬ svc.Sealed text
  | .probe peer_id _ =>
    ∀ p stored, s.store.getPeer peer_id = some p → p.their_key_for_us = some stored →
      ¬ svc.Sealed stored
  | _ => True

/-- Every peer keeps the text last supplied for it. -/
def TextsKept (svc : SyncService) (as : List PeerAction) (s : PeerState) : Prop :=
  ∀ p ∈ s.store.sync_peers.rows, TextKept svc as p

/-- An action that supplies nothing and leaves the texts of the peers as they are. -/
theorem TextsKept.quiet (h : TextsKept svc as s) (ha : a.supplies = none)
    (hpeers : ∀ q ∈ t.store.sync_peers.rows, ∃ p ∈ s.store.sync_peers.rows,
      q.id = p.id ∧ q.their_key_for_us = p.their_key_for_us) : TextsKept svc (as ++ [a]) t := by
  intro q hq
  obtain ⟨p, hp, hid, htext⟩ := hpeers q hq
  refine ((h p hp).congr hid htext).concat ?_
  intro text hsupplies
  rw [ha] at hsupplies
  cases hsupplies

/-- A row takes the place of another one with the same text. -/
theorem kept_of_upsert {t : KeyedTable PeerRow PeerRow.key} (hp : t.find peer_id = some p)
    (hr : r ∈ (t.upsert q).rows) (hid : q.id = p.id)
    (htext : q.their_key_for_us = p.their_key_for_us) :
    ∃ p ∈ t.rows, r.id = p.id ∧ r.their_key_for_us = p.their_key_for_us := by
  rcases KeyedTable.mem_upsert_iff.1 hr with rfl | ⟨hr, _⟩
  · exact ⟨p, KeyedTable.mem_of_find hp, hid, htext⟩
  · exact ⟨r, hr, rfl, rfl⟩

theorem textsKept_create (h : TextsKept svc as s)
    (hcreate : svc.createPeer data peer_id token salt s.vault nonce s.store = .ok (key, store))
    (hopen : s.vault = none → ∀ text, data.their_key_for_us = some text → ¬ svc.Sealed text) :
    TextsKept svc (as ++ [.create peer_id key data]) ⟨store, s.vault, drawn⟩ := by
  obtain ⟨_, _, p, rfl, _, _, htext, rfl⟩ := createPeer_ok hcreate
  intro q hq
  rcases KeyedTable.mem_upsert_iff.1 hq with rfl | ⟨hq, hne⟩
  · cases hdata : data.their_key_for_us with
    | none =>
      rw [hdata] at htext
      intro stored hstored
      cases htext.symm.trans hstored
    | some text =>
      apply TextKept.supplied
      · rw [PeerAction.supplies, hdata]
        rfl
      · intro stored hstored
        rw [hdata] at htext
        by_cases hempty : text = ""
        · subst hempty
          cases htext.symm.trans hstored
        · have hfilter : (some text).filter (· ≠ "") = some text := by simp [hempty]
          rw [hfilter] at htext
          cases htext.symm.trans hstored
          exact keeps_encryptTheirKey hempty (fun hv => hopen hv text hdata) nonce
  · refine (h q hq).concat ?_
    intro text hsupplies
    obtain ⟨_, _, he⟩ := Option.map_eq_some_iff.1 hsupplies
    exact hne (Prod.mk.inj he).1.symm

theorem textsKept_update (h : TextsKept svc as s)
    (hupdate : svc.updatePeer peer_id data s.vault nonce s.store = .ok store)
    (hopen : s.vault = none → ∀ text, data.their_key_for_us = some text → ¬ svc.Sealed text) :
    TextsKept svc (as ++ [.update peer_id data]) ⟨store, s.vault, drawn⟩ := by
  obtain ⟨p, hp, rfl⟩ := updatePeer_ok hupdate
  obtain rfl : p.id = peer_id := id_of_getPeer hp
  intro q hq
  rcases KeyedTable.mem_upsert_iff.1 hq with rfl | ⟨hq, hne⟩
  · cases hdata : data.their_key_for_us with
    | none =>
      have hkept : TextKept svc as ((svc.updateFields s.vault nonce data).apply p) := by
        refine (h p (KeyedTable.mem_of_find hp)).congr rfl ?_
        rw [PeerFields.apply, updateFields, hdata]
        rfl
      refine hkept.concat ?_
      intro text hsupplies
      rw [PeerAction.supplies, hdata] at hsupplies
      cases hsupplies
    | some text =>
      apply TextKept.supplied
      · rw [PeerAction.supplies, hdata]
        rfl
      · intro stored hstored
        rw [PeerFields.apply, updateFields, hdata] at hstored
        change some (if text = "" then text else _) = some stored at hstored
        cases hstored
        split
        · rename_i hempty
          rw [hempty]
          exact .plain not_sealed_empty
        · rename_i hempty
          exact keeps_encryptTheirKey hempty (fun hv => hopen hv text hdata) nonce
  · refine (h q hq).concat ?_
    intro text hsupplies
    obtain ⟨_, _, he⟩ := Option.map_eq_some_iff.1 hsupplies
    exact hne (Prod.mk.inj he).1.symm

theorem textsKept_step (h : TextsKept svc as s)
    (hstep : Guarded (PeerStep b svc) (Unsealed svc) s a t) : TextsKept svc (as ++ [a]) t := by
  obtain ⟨hstep, hopen⟩ := hstep
  cases hstep with
  | create _ _ hcreate => exact textsKept_create h hcreate hopen
  | update hupdate => exact textsKept_update h hupdate hopen
  | delete hdelete =>
    rw [deletePeer_ok hdelete]
    exact h.quiet rfl fun q hq => ⟨q, (List.mem_filter.1 hq).1, rfl, rfl⟩
  | rotate _ hrotate =>
    obtain ⟨p, hp, _, rfl⟩ := rotatePeerKey_ok hrotate
    exact h.quiet rfl fun q hq => kept_of_upsert hp hq rfl rfl
  | migrate =>
    rename_i nonce
    cases hv : s.vault with
    | none => exact h.quiet rfl fun q hq => ⟨q, hq, rfl, rfl⟩
    | some key =>
      intro q hq
      obtain ⟨p, hp, rfl⟩ := List.mem_map.1 hq
      exact ((h p hp).migrate key nonce).concat nofun
  | vault => exact h.quiet rfl fun q hq => ⟨q, hq, rfl, rfl⟩
  | probe => exact h.quiet rfl fun q hq => ⟨q, hq, rfl, rfl⟩
  | pull => exact h.quiet rfl fun q hq => ⟨q, hq, rfl, rfl⟩
  | push => exact h.quiet rfl fun q hq => ⟨q, hq, rfl, rfl⟩
  | answered =>
    rename_i peer_id node_id
    cases hupdate : s.store.updatePeerFields peer_id { peer_node_id := some node_id } with
    | none =>
      rw [recordProbe, hupdate]
      exact h.quiet rfl fun q hq => ⟨q, hq, rfl, rfl⟩
    | some store =>
      obtain ⟨p, hp, rfl⟩ := updatePeerFields_eq_some hupdate
      rw [recordProbe, hupdate]
      exact h.quiet rfl fun q hq => kept_of_upsert hp hq rfl rfl
  | recorded =>
    rw [PeerStore.recordSync]
    split
    · exact h.quiet rfl fun q hq => ⟨q, hq, rfl, rfl⟩
    · rename_i p hp
      exact h.quiet rfl fun q hq => kept_of_upsert hp hq rfl rfl

/-! ## The calls -/

/-- A key that was read from a peer's text. -/
def ReadFrom (svc : SyncService) (vault : Option (List UInt8)) (store : PeerStore)
    (peer_id key : String) : Prop :=
  ∃ p stored, store.getPeer peer_id = some p ∧ p.their_key_for_us = some stored ∧
    svc.decryptTheirKey vault (some stored) = some key

theorem readFrom_of_pullKey (h : svc.pullKey vault peer_id store = some key) :
    ReadFrom svc vault store peer_id key := by
  rw [pullKey] at h
  split at h
  · cases h
  · rename_i p hp
    split at h
    · cases h
    · split at h
      · cases h
      · cases h
      · rename_i stored _ hstored
        split at h
        · cases h
        · cases h
        · rename_i hd
          cases h
          exact ⟨p, stored, hp, hstored, hd⟩

theorem readFrom_of_pushKey (h : svc.pushKey vault bundle peer_id store = some key) :
    ReadFrom svc vault store peer_id key := by
  rw [pushKey] at h
  split at h
  · cases h
  · rename_i p hp
    split at h
    · cases h
    · cases h
    · cases h
    · rename_i stored _ hstored _
      split at h
      · cases h
      · cases h
      · rename_i hd
        cases h
        exact ⟨p, stored, hp, hstored, hd⟩

theorem probeKey_ok {store : PeerStore} (h : probeKey peer_id store = .ok key) :
    ∃ p, store.getPeer peer_id = some p ∧ p.their_key_for_us = some key := by
  rw [probeKey] at h
  split at h
  · cases h
  · rename_i p hp
    split at h
    · cases h
    · cases h
    · rename_i hstored
      cases h
      exact ⟨p, hp, hstored⟩

/-- The engine pushes a bundle exactly where there is a key to send with it. -/
theorem pushRequest_isSome_iff {eng : MeshSyncEngine b} {store : PeerStore}
    (heng : eng.decrypt_their_key = fun stored => svc.decryptTheirKey vault (some stored))
    (hp : store.getPeer peer_id = some p) (bundle : Bytes) :
    (eng.pushRequest p.toSyncPeer bundle).isSome = true ↔
      ∃ key, svc.pushKey vault bundle peer_id store = some key := by
  rw [pushKey, ← Option.isSome_iff_exists]
  unfold MeshSyncEngine.pushRequest
  simp only [hp, heng]
  generalize p.their_key_for_us = text
  cases text with
  | none => rfl
  | some stored =>
    by_cases hstored : stored = ""
    · subst hstored
      rfl
    · cases hd : svc.decryptTheirKey vault (some stored) with
      | none => cases bundle <;> simp [hd]
      | some decrypted =>
        by_cases hempty : decrypted = ""
        · cases bundle <;> simp [hd, hempty]
        · cases bundle <;> simp [hd]

/-- The engine pulls exactly where there is a key to send. -/
theorem pullSince_isSome_iff {eng : MeshSyncEngine b} {store : PeerStore}
    {inst : Installation b}
    (heng : eng.decrypt_their_key = fun stored => svc.decryptTheirKey vault (some stored))
    (hp : inst.sync_peers.find peer_id = (store.getPeer peer_id).map PeerRow.toSyncPeer) :
    (eng.pullSince peer_id inst).isSome = true ↔
      ∃ key, svc.pullKey vault peer_id store = some key := by
  rw [MeshSyncEngine.pullSince, pullKey, hp, heng, ← Option.isSome_iff_exists]
  cases store.getPeer peer_id with
  | none => rfl
  | some p =>
    simp only [Option.map_some]
    by_cases henabled : p.enabled = true
    · simp only [henabled, Bool.not_true, Bool.false_eq_true, if_false]
      generalize p.their_key_for_us = text
      cases text with
      | none => rfl
      | some stored =>
        by_cases hstored : stored = ""
        · subst hstored
          rfl
        · cases hd : svc.decryptTheirKey vault (some stored) with
          | none => simp [hd]
          | some decrypted =>
            by_cases hempty : decrypted = ""
            · simp [hd, hempty]
            · simp [hd]
    · simp [henabled]

theorem TextsKept.readFrom (hg : svc.aesgcm.Exact) (h : TextsKept svc as s)
    (hread : ReadFrom svc s.vault s.store peer_id key) : lastSupplied as peer_id = some key := by
  obtain ⟨p, stored, hp, hstored, hd⟩ := hread
  obtain ⟨plaintext, hlast, hkeeps⟩ := h p (KeyedTable.mem_of_find hp) stored hstored
  rw [← id_of_getPeer hp, hlast, hkeeps.decrypts hg hd]

/-- What the next call carries is the text last supplied. -/
theorem sends_step (hg : svc.aesgcm.Exact) (h : TextsKept svc as s)
    (hstep : Guarded (PeerStep b svc) (Unsealed svc) s a t)
    (ha : a.sends = some (peer_id, key)) : lastSupplied as peer_id = some key := by
  obtain ⟨hstep, hopen⟩ := hstep
  cases hstep with
  | probe hprobe =>
    cases ha
    obtain ⟨p, hp, hstored⟩ := probeKey_ok hprobe
    obtain ⟨plaintext, hlast, hkeeps⟩ := h p (KeyedTable.mem_of_find hp) key hstored
    rw [← id_of_getPeer hp, hlast, hkeeps.of_open hg (hopen p key hp hstored)]
  | pull hpull =>
    cases ha
    exact h.readFrom hg (readFrom_of_pullKey hpull)
  | push hpush =>
    cases ha
    exact h.readFrom hg (readFrom_of_pushKey hpush)
  | _ => cases ha

/-- While no text that a vault key opens is supplied without a vault, and none is probed, every
call carries the text last supplied for its peer. -/
theorem their_key_sent {s₀ : PeerState} (hg : svc.aesgcm.Exact) (hs₀ : s₀.Fresh)
    (hrun : Run (Guarded (PeerStep b svc) (Unsealed svc)) s₀ as s) :
    SendsSupplied as ∧
      (∀ nonce peer_id,
        ((svc.migratePlaintextPeerKeys s.vault nonce s.store).getPeer peer_id).map
            (fun p => svc.decryptTheirKey s.vault p.their_key_for_us) =
          (s.store.getPeer peer_id).map
            fun p => svc.decryptTheirKey s.vault p.their_key_for_us) ∧
      ∀ nonce nonce', svc.migratePlaintextPeerKeys s.vault nonce'
          (svc.migratePlaintextPeerKeys s.vault nonce s.store) =
        svc.migratePlaintextPeerKeys s.vault nonce s.store := by
  have hrun' : TextsKept svc as s ∧ SendsSupplied as := by
    induction hrun with
    | nil =>
      refine ⟨fun p hp => ?_, fun pre a post _ _ he => ?_⟩
      · rw [hs₀.1] at hp
        exact absurd hp List.not_mem_nil
      · cases List.append_ne_nil_of_right_ne_nil pre (List.cons_ne_nil a post) he.symm
    | snoc _ hstep ih =>
      obtain ⟨hkept, hsent⟩ := ih
      exact ⟨textsKept_step hkept hstep,
        sendsSupplied_concat hsent fun _ _ ha => sends_step hg hkept hstep ha⟩
  exact ⟨hrun'.2, fun nonce => decryptTheirKey_migrate hg s.vault nonce s.store,
    fun nonce nonce' => migrate_migrate svc s.vault nonce nonce' s.store⟩

/-- North is reached with the key `"secret"`. -/
def northWithKey : SyncPeerCreate := { northPeer with their_key_for_us := some "secret" }

/-- A key that was supplied without a vault is migrated and then pulled with. -/
theorem their_key_sent_migrated : ∃ as s, Run (PeerStep .sqlite plainService) (noPeers none) as s ∧
    PeerAction.pull "north" "secret" ∈ as ∧ SendsSupplied as := by
  obtain ⟨created, hcreate, hpull⟩ : ∃ store, plainService.createPeer northWithKey "north"
      (tokenOf 'a') 0 none [] ⟨∅, []⟩ = .ok (sliceTo keyTotalLen (tokenOf 'a'), store) ∧
        plainService.pullKey (some [1]) "north" (plainService.migratePlaintextPeerKeys (some [1])
          (fun _ => [2]) store) = some "secret" := by
    refine ⟨_, rfl, ?_⟩
    decide +kernel
  have hrun : Run (Guarded (PeerStep .sqlite plainService) (Unsealed plainService)) (noPeers none)
      [.create "north" (sliceTo keyTotalLen (tokenOf 'a')) northWithKey, .vault, .migrate,
        .pull "north" "secret"]
      ⟨plainService.migratePlaintextPeerKeys (some [1]) (fun _ => [2]) created, some [1],
        ["north"]⟩ := by
    refine .snoc (.snoc (.snoc (.snoc .nil ⟨.create List.not_mem_nil (by decide) hcreate, ?_⟩)
      ⟨.vault, trivial⟩) ⟨.migrate, trivial⟩) ⟨.pull hpull, trivial⟩
    intro _ text htext
    cases htext
    rintro ⟨hpre, _⟩
    revert hpre
    decide +kernel
  have hsent := (their_key_sent Aesgcm.plain_exact ⟨rfl, rfl⟩ hrun).1
  exact ⟨_, _, hrun.of_guarded, List.mem_of_mem_getLast? rfl, hsent⟩

/-- A probe sends what the vault encoded. -/
theorem probe_sends_encoded : ¬ ∀ (svc : SyncService), svc.aesgcm.Exact → ∀ s₀ as s,
    s₀.Fresh → Run (PeerStep .sqlite svc) s₀ as s → SendsSupplied as := by
  intro h
  obtain ⟨created, hcreate, hprobe⟩ : ∃ store, plainService.createPeer northWithKey "north"
      (tokenOf 'a') 0 (some [1]) [2] ⟨∅, []⟩ = .ok (sliceTo keyTotalLen (tokenOf 'a'), store) ∧
        probeKey "north" store = .ok (plainService.encryptPeerKey "secret" [1] [2]) := by
    refine ⟨_, rfl, ?_⟩
    decide +kernel
  have hrun : Run (PeerStep .sqlite plainService) (noPeers (some [1]))
      [.create "north" (sliceTo keyTotalLen (tokenOf 'a')) northWithKey,
        .probe "north" (plainService.encryptPeerKey "secret" [1] [2])]
      ⟨created, some [1], ["north"]⟩ :=
    .snoc (.snoc .nil (.create List.not_mem_nil (by decide) hcreate)) (.probe hprobe)
  have hsent := h plainService Aesgcm.plain_exact _ _ _ ⟨rfl, rfl⟩ hrun
    [.create "north" (sliceTo keyTotalLen (tokenOf 'a')) northWithKey] _ [] _ _ rfl rfl
  revert hsent
  decide +kernel

end ScottyCore
