import ScottyCore.Backup.TenantIdentity
import ScottyCore.Sync.PushDelta
import ScottyCore.Sync.Slot

namespace ScottyCore
open Python
set_option autoImplicit true

variable {b : Backend}

/-! ## The engine's own parser -/

/-- The data members of a bundle: contributor ids with JSON documents, in the order of a `dict`. -/
abbrev DocPayloads := KeyedTable (String × JsonDoc) Prod.fst

/-- The rows of a contributor: none where a bundle has no data member for it. -/
def DocPayloads.rowsOf (data : DocPayloads) (cid : String) : JsonDoc :=
  ((data.find cid).map Prod.snd).getD (.array [])

/-- What a member adds to the data of a bundle. -/
def dataOf (mem : TarMember) : Except Exc (Option (String × JsonDoc)) :=
  match contributorOf mem.name, mem.reading with
  | some cid, some reading => reading.json.map fun rows => some (cid, rows)
  | _, _ => .ok none

namespace MeshSyncEngine

def syncManifest (members : List TarMember) : Except Exc BackupManifest :=
  match members.reverse.find? fun mem => mem.name = manifestName with
  | none => .error (.python (.keyError "filename 'manifest.json' not found"))
  | some ⟨_, none⟩ => .error (.python (.valueError "Missing manifest.json in bundle"))
  | some ⟨_, some reading⟩ => reading.manifest

/-- The body of the loop over the members. -/
def readDataMember (data : DocPayloads) (mem : TarMember) : Except Exc DocPayloads :=
  (dataOf mem).map fun
    | some payload => data.upsert payload
    | none => data

/-- The engine's `_extract_bundle`. -/
def extractTarball (bundle : Tarball) : Except Exc (BackupManifest × DocPayloads) := do
  let members ← bundle
  let manifest ← syncManifest members
  let data ← members.foldlM readDataMember ∅
  .ok (manifest, data)

/-- The body of the loop of `_apply_bundle`: the origin filter raises on what is no list of
objects, and nothing catches it. -/
def applyDoc (eng : MeshSyncEngine b) (peer_id origin_node_id : String)
    (payload : String × JsonDoc) (inst : Installation b) : Except Exc Log × Installation b :=
  match eng.backup.contributors.find payload.1 with
  | none => (.ok [], inst)
  | some _ =>
    match payload.2.dicts with
    | .error e => (.error e, inst)
    | .ok rows =>
      let (log, inst) := eng.applyPayload peer_id origin_node_id (payload.1, rows) inst
      (.ok log, inst)

def applyDocs (eng : MeshSyncEngine b) (peer_id origin_node_id : String) :
    List (String × JsonDoc) → Installation b → Except Exc Log × Installation b
  | [], inst => (.ok [], inst)
  | payload :: payloads, inst =>
    match eng.applyDoc peer_id origin_node_id payload inst with
    | (.error e, inst) => (.error e, inst)
    | (.ok log, inst) =>
      let (rest, inst) := eng.applyDocs peer_id origin_node_id payloads inst
      (rest.map (log ++ ·), inst)

/-- `_apply_bundle` on any bytes. -/
def applyTarball (eng : MeshSyncEngine b) (bundle : Tarball) (peer_id : String)
    (origin_node_id : Option String) (inst : Installation b) :
    Except Exc Log × Installation b :=
  match extractTarball bundle with
  | .error _ => (.ok [], inst)
  | .ok (_, data) => eng.applyDocs peer_id (originOf origin_node_id) data.rows inst

/-! ## What both parsers read -/

theorem syncManifest_ok_iff {members : List TarMember} :
    syncManifest members = .ok manifest ↔ tarManifest members = .ok manifest := by
  rw [syncManifest, tarManifest]
  cases members.reverse.find? fun mem => mem.name = manifestName with
  | none => simp only [reduceCtorEq]
  | some mem =>
    obtain ⟨name, _ | reading⟩ := mem
    · simp only [reduceCtorEq]
    · exact Iff.rfl

theorem readDataMember_ok_iff (data : DocPayloads) (mem : TarMember) :
    (∃ data', readDataMember data mem = .ok data') ↔ ∃ payload, dataOf mem = .ok payload := by
  rw [readDataMember]
  cases dataOf mem with
  | error e => exact ⟨nofun, nofun⟩
  | ok payload => exact ⟨fun _ => ⟨payload, rfl⟩, fun _ => ⟨_, rfl⟩⟩

theorem rowsOf_upsert (data : DocPayloads) (cid cid' : String) (doc : JsonDoc) :
    DocPayloads.rowsOf (data.upsert (cid, doc)) cid' =
      if cid' = cid then doc else data.rowsOf cid' := by
  rw [DocPayloads.rowsOf, KeyedTable.find_upsert]
  split
  · rfl
  · rfl

theorem payload_upsert (data : ContributorData) (cid cid' : String) (p : Payload) :
    ContributorData.payload (data.upsert (cid, p)) cid' =
      if cid' = cid then p else data.payload cid' := by
  rw [ContributorData.payload, KeyedTable.find_upsert]
  split
  · rfl
  · rfl

theorem dataOf_of_contributor (hcid : contributorOf mem.name = some cid)
    (hreading : mem.reading = some reading) :
    dataOf mem = reading.json.map fun rows => some (cid, rows) := by
  rw [dataOf, hcid, hreading]

theorem dataOf_of_not_contributor (h : contributorOf mem.name = none) :
    dataOf mem = .ok none := by
  rw [dataOf, h]

theorem dataOf_of_directory (h : mem.reading = none) : dataOf mem = .ok none := by
  rw [dataOf, h]
  cases contributorOf mem.name <;> rfl

/-- Whatever the service reads, the engine reads too, with the same rows for every id. -/
theorem readDataMember_of_readTarMember {data : ContributorData} {docs : DocPayloads}
    (hrows : ∀ cid, docs.rowsOf cid = (data.payload cid).rows)
    (h : readTarMember data mem = .ok data') :
    ∃ docs', readDataMember docs mem = .ok docs' ∧
      ∀ cid, docs'.rowsOf cid = (data'.payload cid).rows := by
  unfold readTarMember at h
  split at h
  · rename_i hnone
    cases h
    exact ⟨docs, by rw [readDataMember, dataOf_of_directory hnone]; rfl, hrows⟩
  · rename_i reading hreading
    split at h
    · rename_i cid hcid
      obtain ⟨doc, hdoc, h⟩ := bind_eq_ok.1 h
      cases h
      refine ⟨docs.upsert (cid, doc), ?_, fun cid' => ?_⟩
      · rw [readDataMember, dataOf_of_contributor hcid hreading, hdoc]
        rfl
      · rw [rowsOf_upsert, payload_upsert]
        split
        · rfl
        · exact hrows cid'
    · rename_i hcid
      refine ⟨docs, by rw [readDataMember, dataOf_of_not_contributor hcid]; rfl, fun cid' => ?_⟩
      rw [hrows cid']
      split at h
      · rename_i cid _ _
        obtain ⟨raw, _, h⟩ := bind_eq_ok.1 h
        cases h
        rw [payload_upsert]
        split
        · rename_i he
          rw [he]
        · rfl
      · cases h
        rfl

theorem extractTarball_of_unpack (h : unpack bundle = .ok (manifest, data)) :
    ∃ docs, extractTarball bundle = .ok (manifest, docs) ∧
      ∀ cid, docs.rowsOf cid = (data.payload cid).rows := by
  obtain ⟨members, hmembers, h⟩ := bind_eq_ok.1 h
  obtain ⟨manifest', hmanifest, h⟩ := bind_eq_ok.1 h
  obtain ⟨data', hdata, h⟩ := bind_eq_ok.1 h
  cases h
  obtain ⟨docs, hdocs, hrows⟩ := foldlM_simulation
    (R := fun (data : ContributorData) (docs : DocPayloads) =>
      ∀ cid, docs.rowsOf cid = (data.payload cid).rows)
    (f := readTarMember) (g := readDataMember) (h := fun mem => mem)
    readDataMember_of_readTarMember (t := ∅) (fun _ => rfl) hdata
  rw [List.map_id'] at hdocs
  refine ⟨docs, ?_, hrows⟩
  exact bind_eq_ok.2 ⟨members, hmembers, bind_eq_ok.2
    ⟨manifest, syncManifest_ok_iff.2 hmanifest, bind_eq_ok.2 ⟨docs, hdocs, rfl⟩⟩⟩

/-! ## When a parser accepts -/

/-- A data member that can be read is JSON. -/
def DataRead (mem : TarMember) : Prop := ∃ payload, dataOf mem = .ok payload

/-- The bytes of a member under `files/` can be read. -/
def FileRead (mem : TarMember) : Prop :=
  ∀ file reading, contributorOf mem.name = none → fileOf mem.name = some file →
    mem.reading = some reading → ∃ raw, reading.raw = .ok raw

theorem dataRead_iff {mem : TarMember} : DataRead mem ↔
    ∀ cid reading, contributorOf mem.name = some cid → mem.reading = some reading →
      ∃ doc, reading.json = .ok doc := by
  constructor
  · rintro ⟨payload, h⟩ cid reading hcid hreading
    rw [dataOf_of_contributor hcid hreading] at h
    obtain ⟨doc, hdoc, _⟩ := map_eq_ok.1 h
    exact ⟨doc, hdoc⟩
  · intro h
    cases hcid : contributorOf mem.name with
    | none => exact ⟨none, dataOf_of_not_contributor hcid⟩
    | some cid =>
      cases hreading : mem.reading with
      | none => exact ⟨none, dataOf_of_directory hreading⟩
      | some reading =>
        obtain ⟨doc, hdoc⟩ := h cid reading hcid hreading
        exact ⟨some (cid, doc), by rw [dataOf_of_contributor hcid hreading, hdoc]; rfl⟩

theorem dataRead_of_contributor (hcid : contributorOf mem.name = some cid)
    (hreading : mem.reading = some reading) : DataRead mem ↔ ∃ doc, reading.json = .ok doc := by
  rw [dataRead_iff]
  constructor
  · intro h
    exact h cid reading hcid hreading
  · intro h cid' reading' _ hreading'
    cases hreading.symm.trans hreading'
    exact h

theorem readTarMember_ok_iff (data : ContributorData) (mem : TarMember) :
    (∃ data', readTarMember data mem = .ok data') ↔ DataRead mem ∧ FileRead mem := by
  cases hreading : mem.reading with
  | none =>
    have hdata : DataRead mem := ⟨none, dataOf_of_directory hreading⟩
    have hfile : FileRead mem := by
      intro file reading _ _ h
      rw [hreading] at h
      cases h
    rw [readTarMember, hreading]
    exact ⟨fun _ => ⟨hdata, hfile⟩, fun _ => ⟨data, rfl⟩⟩
  | some reading =>
    cases hcid : contributorOf mem.name with
    | some cid =>
      have hfile : FileRead mem := by
        intro file reading h
        rw [hcid] at h
        cases h
      rw [dataRead_of_contributor hcid hreading, readTarMember, hreading, hcid]
      constructor
      · rintro ⟨data', h⟩
        obtain ⟨doc, hdoc, _⟩ := bind_eq_ok.1 h
        exact ⟨⟨doc, hdoc⟩, hfile⟩
      · rintro ⟨⟨doc, hdoc⟩, _⟩
        exact ⟨_, bind_eq_ok.2 ⟨doc, hdoc, rfl⟩⟩
    | none =>
      have hdata : DataRead mem := ⟨none, dataOf_of_not_contributor hcid⟩
      rw [FileRead, readTarMember, hreading, hcid]
      cases hfile : fileOf mem.name with
      | none => exact ⟨fun _ => ⟨hdata, fun _ _ _ h => by cases h⟩, fun _ => ⟨data, rfl⟩⟩
      | some file =>
        constructor
        · rintro ⟨data', h⟩
          obtain ⟨raw, hraw, _⟩ := bind_eq_ok.1 h
          exact ⟨hdata, fun _ _ _ _ he => ⟨raw, Option.some.inj he ▸ hraw⟩⟩
        · rintro ⟨_, h⟩
          obtain ⟨raw, hraw⟩ := h file reading rfl rfl rfl
          exact ⟨_, bind_eq_ok.2 ⟨raw, hraw, rfl⟩⟩

/-- A bundle whose manifest is read, with its members. -/
def ManifestRead (bundle : Tarball) (members : List TarMember) (manifest : BackupManifest) :
    Prop :=
  bundle = .ok members ∧ tarManifest members = .ok manifest

theorem extractTarball_ok_iff {bundle : Tarball} :
    (∃ docs, extractTarball bundle = .ok (manifest, docs)) ↔
      ∃ members, ManifestRead bundle members manifest ∧ ∀ mem ∈ members, DataRead mem := by
  constructor
  · rintro ⟨docs, h⟩
    obtain ⟨members, hmembers, h⟩ := bind_eq_ok.1 h
    obtain ⟨manifest', hmanifest, h⟩ := bind_eq_ok.1 h
    obtain ⟨data, hdata, h⟩ := bind_eq_ok.1 h
    cases h
    exact ⟨members, ⟨hmembers, syncManifest_ok_iff.1 hmanifest⟩,
      (foldlM_ok_iff readDataMember_ok_iff members ∅).1 ⟨_, hdata⟩⟩
  · rintro ⟨members, ⟨hmembers, hmanifest⟩, hread⟩
    obtain ⟨data, hdata⟩ := (foldlM_ok_iff readDataMember_ok_iff members ∅).2 hread
    exact ⟨data, bind_eq_ok.2 ⟨members, hmembers, bind_eq_ok.2
      ⟨manifest, syncManifest_ok_iff.2 hmanifest, bind_eq_ok.2 ⟨data, hdata, rfl⟩⟩⟩⟩

theorem unpack_ok_iff {bundle : Tarball} :
    (∃ data, unpack bundle = .ok (manifest, data)) ↔
      ∃ members, ManifestRead bundle members manifest ∧
        ∀ mem ∈ members, DataRead mem ∧ FileRead mem := by
  constructor
  · rintro ⟨docs, h⟩
    obtain ⟨members, hmembers, h⟩ := bind_eq_ok.1 h
    obtain ⟨manifest', hmanifest, h⟩ := bind_eq_ok.1 h
    obtain ⟨data, hdata, h⟩ := bind_eq_ok.1 h
    cases h
    exact ⟨members, ⟨hmembers, hmanifest⟩,
      (foldlM_ok_iff readTarMember_ok_iff members ∅).1 ⟨_, hdata⟩⟩
  · rintro ⟨members, ⟨hmembers, hmanifest⟩, hread⟩
    obtain ⟨data, hdata⟩ := (foldlM_ok_iff readTarMember_ok_iff members ∅).2 hread
    exact ⟨data, bind_eq_ok.2 ⟨members, hmembers, bind_eq_ok.2
      ⟨manifest, hmanifest, bind_eq_ok.2 ⟨data, hdata, rfl⟩⟩⟩⟩

/-! ## The rows of a bundle -/

/-- The document of a data member of a contributor. -/
def docFor (cid : String) (mem : TarMember) : Option JsonDoc :=
  match dataOf mem with
  | .ok (some payload) => if payload.1 = cid then some payload.2 else none
  | _ => none

/-- The document that counts: a later data member replaces an earlier one. -/
def lastDoc (members : List TarMember) (cid : String) : Option JsonDoc :=
  members.reverse.findSome? (docFor cid)

theorem lastDoc_cons (mem : TarMember) (members : List TarMember) (cid : String) :
    lastDoc (mem :: members) cid = (lastDoc members cid).or (docFor cid mem) := by
  rw [lastDoc, List.reverse_cons, List.findSome?_append, ← lastDoc]
  congr 1
  rw [List.findSome?_cons]
  cases docFor cid mem <;> rfl

theorem find_readDataMember (h : readDataMember data mem = .ok data') (cid : String) :
    (data'.find cid).map Prod.snd = (docFor cid mem).or ((data.find cid).map Prod.snd) := by
  obtain ⟨payload, hpayload, rfl⟩ := map_eq_ok.1 h
  rw [docFor, hpayload]
  cases payload with
  | none => rfl
  | some payload =>
    simp only [KeyedTable.find_upsert]
    by_cases hcid : payload.1 = cid
    · rw [if_pos hcid, if_pos hcid.symm]
      rfl
    · rw [if_neg hcid, if_neg (Ne.symm hcid)]
      rfl

theorem find_foldlM_readDataMember {members : List TarMember} {data data' : DocPayloads}
    (h : members.foldlM readDataMember data = .ok data') (cid : String) :
    (data'.find cid).map Prod.snd = (lastDoc members cid).or ((data.find cid).map Prod.snd) := by
  induction members generalizing data with
  | nil =>
    cases h
    rfl
  | cons mem members ih =>
    rw [List.foldlM_cons] at h
    obtain ⟨data₁, hdata₁, h⟩ := bind_eq_ok.1 h
    rw [ih h, find_readDataMember hdata₁, lastDoc_cons, Option.or_assoc]

theorem find_extractTarball (hread : ManifestRead bundle members manifest)
    (h : extractTarball bundle = .ok (manifest', docs)) (cid : String) :
    (docs.find cid).map Prod.snd = lastDoc members cid := by
  obtain ⟨members', hmembers, h⟩ := bind_eq_ok.1 h
  cases hmembers.symm.trans hread.1
  obtain ⟨_, _, h⟩ := bind_eq_ok.1 h
  obtain ⟨data, hdata, h⟩ := bind_eq_ok.1 h
  cases h
  rw [find_foldlM_readDataMember hdata]
  exact Option.or_none

end MeshSyncEngine

/-! ## What `restore_bundle` rejects -/

/-- What `restore_bundle` asks of a bundle before it looks for the tenant: that its own parser
reads it, and the schema gate. -/
def acceptBundle (bundle : Tarball) : Except Exc (BackupManifest × ContributorData) := do
  let (manifest, data) ← unpack bundle
  if supportedSchemaVersion < manifest.schema_version then throw (unsupportedBundle manifest)
  .ok (manifest, data)

theorem openBundle_eq (bundle : Tarball) : openBundle bundle = (do
    let (manifest, data) ← acceptBundle bundle
    let tenant_id ← bundleTenantId manifest data
    .ok ⟨manifest, data, tenant_id⟩) := by
  rw [openBundle, acceptBundle]
  cases unpack bundle with
  | error e => rfl
  | ok r =>
    simp only [bind, Except.bind]
    by_cases hv : supportedSchemaVersion < r.1.schema_version
    · rw [if_pos hv, if_pos hv]
      rfl
    · rw [if_neg hv, if_neg hv]

/-- A bundle that is not accepted makes `restore_bundle` raise, with nothing changed. -/
theorem restoreBundle_of_rejected (svc : BackupService b) (h : acceptBundle bundle = .error e)
    (user_id ip : String) (db : Database b) :
    svc.restoreBundle bundle user_id ip db = (.error e, db) := by
  have hopen : openBundle bundle = .error e := by
    rw [openBundle_eq, h]
    rfl
  rw [BackupService.restoreBundle, hopen]

theorem acceptBundle_ok_iff {bundle : Tarball} :
    (∃ data, acceptBundle bundle = .ok (manifest, data)) ↔
      ∃ members, MeshSyncEngine.ManifestRead bundle members manifest ∧
        (∀ mem ∈ members, MeshSyncEngine.DataRead mem ∧ MeshSyncEngine.FileRead mem) ∧
        manifest.schema_version ≤ supportedSchemaVersion := by
  constructor
  · rintro ⟨data, h⟩
    obtain ⟨⟨manifest', data'⟩, hr, h⟩ := bind_eq_ok.1 h
    obtain ⟨hv, h⟩ := raise_eq_ok.1 h
    cases h
    obtain ⟨members, hread, hall⟩ := MeshSyncEngine.unpack_ok_iff.1 ⟨data, hr⟩
    exact ⟨members, hread, hall, not_lt.1 hv⟩
  · rintro ⟨members, hread, hall, hv⟩
    obtain ⟨data, hdata⟩ := MeshSyncEngine.unpack_ok_iff.2 ⟨members, hread, hall⟩
    exact ⟨data, bind_eq_ok.2 ⟨(manifest, data), hdata, raise_eq_ok.2 ⟨not_lt.2 hv, rfl⟩⟩⟩

/-! ## Bundles without a row -/

/-- A document in which the engine finds rows: a list of objects that is not empty. -/
def JsonDoc.HasRow (doc : JsonDoc) : Prop := ∃ row rows, doc.dicts = .ok (row :: rows)

/-- A contributor has rows in a bundle: its last data member has. -/
def HoldsRow (members : List TarMember) : Prop :=
  ∃ cid doc, MeshSyncEngine.lastDoc members cid = some doc ∧ doc.HasRow

namespace MeshSyncEngine

variable {eng : MeshSyncEngine b} {s : Installation b}

theorem applyDocs_cons (payload : String × JsonDoc) (payloads : List (String × JsonDoc))
    (inst : Installation b) :
    (eng.applyDocs peer_id origin (payload :: payloads) inst).2 =
      match eng.backup.contributors.find payload.1 with
      | none => (eng.applyDocs peer_id origin payloads inst).2
      | some c =>
        match payload.2.dicts with
        | .error _ => inst
        | .ok rows => (eng.applyDocs peer_id origin payloads
            (eng.applyContributorRows c peer_id origin
              (filterRowsByOrigin rows payload.1 [eng.local_node.id] inst) inst).2).2 := by
  rw [applyDocs]
  cases hf : eng.backup.contributors.find payload.1 with
  | none =>
    rw [applyDoc, hf]
  | some c =>
    cases hrows : payload.2.dicts with
    | error e =>
      rw [applyDoc, hf]
      simp only [hrows]
    | ok rows =>
      rw [applyDoc, hf]
      simp only [hrows, applyPayload, hf]

theorem applyDocs_invariant {P : Installation b → Prop} {payloads : List (String × JsonDoc)}
    (hP : P s)
    (hrow : ∀ payload ∈ payloads, ∀ c, eng.backup.contributors.find payload.1 = some c →
      ∀ row s, P s → P (eng.applyRow c peer_id origin row s).2) :
    P (eng.applyDocs peer_id origin payloads s).2 := by
  induction payloads generalizing s with
  | nil => exact hP
  | cons payload payloads ih =>
    have hrest := fun p hp => hrow p (List.mem_cons_of_mem payload hp)
    rw [applyDocs_cons]
    cases hf : eng.backup.contributors.find payload.1 with
    | none => exact ih hP hrest
    | some c =>
      cases payload.2.dicts with
      | error e => exact hP
      | ok rows =>
        apply ih _ hrest
        exact applyContributorRows_invariant hP fun row _ s =>
          hrow payload List.mem_cons_self c hf row s

theorem applyDocs_of_not_hasRow (eng : MeshSyncEngine b) (inst : Installation b)
    {payloads : List (String × JsonDoc)} (h : ∀ payload ∈ payloads, ¬ payload.2.HasRow) :
    (eng.applyDocs peer_id origin payloads inst).2 = inst := by
  induction payloads with
  | nil => rfl
  | cons payload payloads ih =>
    have hrest := ih fun p hp => h p (List.mem_cons_of_mem _ hp)
    rw [applyDocs_cons]
    cases eng.backup.contributors.find payload.1 with
    | none => exact hrest
    | some c =>
      cases hrows : payload.2.dicts with
      | error e => rfl
      | ok rows =>
        cases rows with
        | nil => exact hrest
        | cons row rows => exact (h payload List.mem_cons_self ⟨row, rows, hrows⟩).elim

/-! ## An engine that records every row -/

def recorder (cid : String) : Contributor .sqlite where
  contributor_id := cid
  scopes := []
  exportAll _ _ _ := .ok {}
  exportDelta := none
  getRow := none
  restore _ _ _ _ db := (.ok 0, db)

/-- An engine of an app that registers one contributor. -/
def recorderEngine (cid : String) : MeshSyncEngine .sqlite where
  local_node := ⟨singletonId, "node"⟩
  backup := (⟨∅, "app", "1.0"⟩ : BackupService .sqlite).register (recorder cid)
  decrypt_their_key := some

def HasOrigin (inst : Installation b) : Prop := inst.sync_row_origin.rows ≠ []

theorem find_recorder (cid cid' : String) :
    (recorderEngine cid).backup.contributors.find cid' =
      if cid' = cid then some (recorder cid) else none :=
  KeyedTable.find_upsert ∅ (recorder cid) cid'

theorem recorded_applyRow (eng : MeshSyncEngine .sqlite) (cid peer_id origin : String)
    (row : Dict) (inst : Installation .sqlite) :
    HasOrigin (eng.applyRow (recorder cid) peer_id origin row inst).2 := by
  have hrow : eng.applyRow (recorder cid) peer_id origin row inst =
      (.applied, recordRowOrigin cid (rowId row) origin inst) := by
    rw [applyRow]
    cases parseTs (row.get "updated_at") <;> rfl
  rw [hrow, HasOrigin]
  exact List.ne_nil_of_mem (KeyedTable.mem_upsertRows_self _ _)

theorem recorded_applyRows {eng : MeshSyncEngine .sqlite} {rows : List Dict}
    {inst : Installation .sqlite} (h : HasOrigin inst ∨ rows ≠ []) :
    HasOrigin (eng.applyContributorRows (recorder cid) peer_id origin rows inst).2 := by
  cases rows with
  | nil => exact h.resolve_right fun hne => hne rfl
  | cons row rows =>
    rw [applyContributorRows]
    exact applyContributorRows_invariant (recorded_applyRow eng cid peer_id origin row inst)
      fun row _ inst _ => recorded_applyRow eng cid peer_id origin row inst

theorem recorded_applyDocs {inst : Installation .sqlite} (h : HasOrigin inst)
    (payloads : List (String × JsonDoc)) :
    HasOrigin ((recorderEngine cid).applyDocs peer_id origin payloads inst).2 := by
  apply applyDocs_invariant h
  intro payload _ c hc row inst _
  rw [find_recorder] at hc
  split at hc
  · cases hc
    exact recorded_applyRow (recorderEngine cid) cid peer_id origin row inst
  · cases hc

theorem filterRowsByOrigin_of_no_origins {inst : Installation b}
    (h : inst.sync_row_origin.rows = []) (rows : List Dict) (cid : String)
    (exclude : List String) : filterRowsByOrigin rows cid exclude inst = rows := by
  apply List.filter_eq_self.2
  intro row _
  rw [keepsRow, getRowOrigin, KeyedTable.find, h]
  split
  · rfl
  · rfl

/-- A document with a row leaves a record where none was. -/
theorem recorded_of_hasRow {inst : Installation .sqlite} (hnone : inst.sync_row_origin.rows = [])
    (hrow : doc.HasRow) {payloads : List (String × JsonDoc)}
    (hn : (payloads.map Prod.fst).Nodup) (hmem : (cid, doc) ∈ payloads) :
    HasOrigin ((recorderEngine cid).applyDocs peer_id origin payloads inst).2 := by
  induction payloads with
  | nil => cases hmem
  | cons payload payloads ih =>
    obtain ⟨hnew, hn⟩ := List.nodup_cons.1 hn
    rw [applyDocs_cons, find_recorder]
    rcases List.mem_cons.1 hmem with rfl | hmem
    · obtain ⟨row, rows, hrows⟩ := hrow
      simp only [if_pos, hrows, filterRowsByOrigin_of_no_origins hnone]
      apply recorded_applyDocs
      exact recorded_applyRows (.inr (List.cons_ne_nil _ _))
    · have hcid : payload.1 ≠ cid := fun h => hnew (h ▸ List.mem_map_of_mem hmem)
      rw [if_neg hcid]
      exact ih hn hmem

end MeshSyncEngine

/-! ## Sync and restore -/

/-- Sync and restore treat a bundle alike: what restore rejects changes nothing when it is synced,
and what restore accepts has one manifest and the same rows for every contributor id in both. -/
structure TakenAlike (bundle : Tarball) : Prop where
  rejected : ∀ e, acceptBundle bundle = .error e →
    ∀ (b : Backend) (eng : MeshSyncEngine b) peer_id origin_node_id inst,
      (eng.applyTarball bundle peer_id origin_node_id inst).2 = inst
  accepted : ∀ manifest data, acceptBundle bundle = .ok (manifest, data) →
    ∃ docs, MeshSyncEngine.extractTarball bundle = .ok (manifest, docs) ∧
      ∀ cid, docs.rowsOf cid = (data.payload cid).rows

namespace MeshSyncEngine

theorem applyTarball_of_ok (eng : MeshSyncEngine b)
    (h : extractTarball bundle = .ok (manifest, docs)) (peer_id : String)
    (origin_node_id : Option String) (inst : Installation b) :
    eng.applyTarball bundle peer_id origin_node_id inst =
      eng.applyDocs peer_id (originOf origin_node_id) docs.rows inst := by
  rw [applyTarball, h]

theorem applyTarball_of_error (eng : MeshSyncEngine b) (h : extractTarball bundle = .error e)
    (peer_id : String) (origin_node_id : Option String) (inst : Installation b) :
    eng.applyTarball bundle peer_id origin_node_id inst = (.ok [], inst) := by
  rw [applyTarball, h]

end MeshSyncEngine

open MeshSyncEngine in
/-- Sync and restore treat a bundle alike exactly when no parser reads it, or its schema version
and its files pass restore too, or no contributor has a row in it. -/
theorem takenAlike_iff (bundle : Tarball) : TakenAlike bundle ↔
    ∀ members manifest, ManifestRead bundle members manifest → (∀ mem ∈ members, DataRead mem) →
      (manifest.schema_version ≤ supportedSchemaVersion ∧ ∀ mem ∈ members, FileRead mem) ∨
        ¬ HoldsRow members := by
  constructor
  · intro h members manifest hread hdata
    obtain ⟨docs, hdocs⟩ := extractTarball_ok_iff.2 ⟨members, hread, hdata⟩
    cases haccept : acceptBundle bundle with
    | ok r =>
      left
      obtain ⟨members', hread', hall, hv⟩ := acceptBundle_ok_iff.1 ⟨r.2, haccept⟩
      cases hread.1.symm.trans hread'.1
      cases hread.2.symm.trans hread'.2
      exact ⟨hv, fun mem hmem => (hall mem hmem).2⟩
    | error e =>
      right
      rintro ⟨cid, doc, hlast, hrow⟩
      rw [← find_extractTarball hread hdocs cid, Option.map_eq_some_iff] at hlast
      obtain ⟨payload, hfind, rfl⟩ := hlast
      obtain rfl : payload.1 = cid := KeyedTable.key_of_find hfind
      have hsame := h.rejected e haccept .sqlite (recorderEngine payload.1) "peer" none
        ⟨noData, ∅, ∅, [], ∅⟩
      have hrecorded : HasOrigin ((recorderEngine payload.1).applyDocs "peer" (originOf none)
          docs.rows ⟨noData, ∅, ∅, [], ∅⟩).2 :=
        recorded_of_hasRow rfl hrow docs.nodup (KeyedTable.mem_of_find hfind)
      rw [applyTarball_of_ok _ hdocs] at hsame
      rw [hsame] at hrecorded
      exact hrecorded rfl
  · intro h
    refine ⟨fun e he b eng peer_id origin_node_id inst => ?_, fun manifest data he => ?_⟩
    · cases hdocs : extractTarball bundle with
      | error e => rw [applyTarball_of_error eng hdocs]
      | ok r =>
        obtain ⟨members, hread, hdata⟩ := extractTarball_ok_iff.1 ⟨r.2, hdocs⟩
        rw [applyTarball_of_ok eng hdocs]
        rcases h members r.1 hread hdata with ⟨hv, hfiles⟩ | hno
        · obtain ⟨data, hok⟩ := acceptBundle_ok_iff.2
            ⟨members, hread, fun mem hmem => ⟨hdata mem hmem, hfiles mem hmem⟩, hv⟩
          cases he.symm.trans hok
        · apply applyDocs_of_not_hasRow
          intro payload hpayload hrow
          refine hno ⟨payload.1, payload.2, ?_, hrow⟩
          rw [← find_extractTarball hread hdocs, KeyedTable.find_of_mem hpayload]
          rfl
    · obtain ⟨r, hr, he⟩ := bind_eq_ok.1 he
      obtain ⟨_, he⟩ := raise_eq_ok.1 he
      cases he
      exact extractTarball_of_unpack hr

/-- A bundle of a later schema with one setting. -/
def laterBundle : Tarball :=
  (buildTarball ⟨2, .platform, none, newYear, "app", "1.0", []⟩
    [("settings", { rows := [themeRow] })]).tarball

/-- Restore turns the later schema away, sync stores the setting. -/
theorem later_bundle_synced : ¬ ∀ bundle, TakenAlike bundle := by
  intro h
  obtain ⟨e, he⟩ : ∃ e, acceptBundle laterBundle = .error e := by
    have hnone : (acceptBundle laterBundle).toOption.isSome = false := by decide +kernel
    cases he : acceptBundle laterBundle with
    | error e => exact ⟨e, rfl⟩
    | ok r =>
      rw [he] at hnone
      cases hnone
  have hsame := (h laterBundle).rejected e he .sqlite
    (MeshSyncEngine.standard ⟨singletonId, "node"⟩ "app" "1.0" none some) "peer" none
    ⟨noData, ∅, ∅, [], ∅⟩
  have hstored : (((MeshSyncEngine.standard ⟨singletonId, "node"⟩ "app" "1.0" none some).applyTarball
      laterBundle "peer" none ⟨noData, ∅, ∅, [], ∅⟩).2.db.table .setting).rows.length = 1 := by
    decide +kernel
  rw [hsame] at hstored
  cases hstored

/-! ## Bundles that were built -/

namespace MeshSyncEngine

/-- Payloads as the JSON documents that their members hold. -/
def docsOf (data : Payloads) : DocPayloads where
  rows := data.rows.map fun p => (p.1, .ofRows p.2)
  nodup := by
    rw [List.map_map]
    exact data.nodup

theorem docsOf_upsert (data : Payloads) (cid : String) (rows : List Dict) :
    docsOf (data.upsert (cid, rows)) = (docsOf data).upsert (cid, .ofRows rows) := by
  rw [docsOf, KeyedTable.upsert, KeyedTable.mk.injEq]
  change (KeyedTable.upsertRows Prod.fst (cid, rows) data.rows).map _ =
    KeyedTable.upsertRows Prod.fst (cid, JsonDoc.ofRows rows) (data.rows.map _)
  induction data.rows with
  | nil => rfl
  | cons p ps ih =>
    rw [List.map_cons, KeyedTable.upsertRows, KeyedTable.upsertRows]
    by_cases h : p.1 = cid
    · rw [if_pos h, if_pos h]
      rfl
    · rw [if_neg h, if_neg h, List.map_cons, ih]

theorem readDataMember_tarMember (data : Payloads) (mem : Member) :
    (readDataMember (docsOf data) (tarMember mem)).toOption =
      (readMember data mem).toOption.map docsOf := by
  obtain ⟨name, content⟩ := mem
  cases hcid : contributorOf name with
  | none =>
    have hdata : dataOf (tarMember ⟨name, content⟩) = .ok none := dataOf_of_not_contributor hcid
    rw [readDataMember, hdata, readMember, hcid]
    rfl
  | some cid =>
    cases content with
    | none =>
      rw [readDataMember, dataOf_of_directory rfl, readMember, hcid]
      rfl
    | some content =>
      rw [readDataMember, dataOf_of_contributor hcid rfl, readMember, hcid]
      cases content with
      | rows rows => exact congrArg some (docsOf_upsert data cid rows).symm
      | manifest m => rfl
      | raw bytes => rfl

theorem foldlM_readDataMember_tarMember (members : List Member) (data : Payloads) :
    ((members.map tarMember).foldlM readDataMember (docsOf data)).toOption =
      (members.foldlM readMember data).toOption.map docsOf := by
  induction members generalizing data with
  | nil => rfl
  | cons mem members ih =>
    have hstep := readDataMember_tarMember data mem
    rw [List.map_cons, List.foldlM_cons, List.foldlM_cons]
    cases hread : readMember data mem with
    | error e =>
      rw [hread] at hstep
      cases hdoc : readDataMember (docsOf data) (tarMember mem) with
      | error e => rfl
      | ok docs =>
        rw [hdoc] at hstep
        cases hstep
    | ok data' =>
      rw [hread] at hstep
      cases hdoc : readDataMember (docsOf data) (tarMember mem) with
      | error e =>
        rw [hdoc] at hstep
        cases hstep
      | ok docs =>
        rw [hdoc] at hstep
        cases hstep
        exact ih data'

theorem syncManifest_tarMember (members : List Member) :
    (syncManifest (members.map tarMember)).toOption = (readManifest members).toOption := by
  have hfind : (members.map tarMember).reverse.find? (fun mem => mem.name = manifestName) =
      (members.reverse.find? fun mem => mem.name = manifestName).map tarMember := by
    rw [← List.map_reverse, List.find?_map]
    rfl
  rw [syncManifest, hfind, readManifest]
  cases members.reverse.find? fun mem => mem.name = manifestName with
  | none => rfl
  | some mem =>
    obtain ⟨name, content⟩ := mem
    cases content with
    | none => rfl
    | some content => cases content <;> rfl

theorem extractTarball_tarball (bundle : Bytes) :
    (extractTarball bundle.tarball).toOption =
      (extractBundle bundle).toOption.map fun r => (r.1, docsOf r.2) := by
  cases bundle with
  | empty => rfl
  | unreadable => rfl
  | tarGz members =>
    have hmanifest := syncManifest_tarMember members
    have hdata := foldlM_readDataMember_tarMember members ∅
    change (do
      let manifest ← syncManifest (members.map tarMember)
      let data ← (members.map tarMember).foldlM readDataMember (docsOf ∅)
      Except.ok (manifest, data) : Except Exc _).toOption = _
    rw [extractBundle]
    revert hmanifest hdata
    cases syncManifest (members.map tarMember) <;> cases readManifest members <;>
      cases (members.map tarMember).foldlM readDataMember (docsOf ∅) <;>
      cases members.foldlM readMember ∅ <;> intro hmanifest hdata <;> cases hmanifest <;>
      cases hdata <;> rfl

theorem applyDocs_docsOf (eng : MeshSyncEngine b) (peer_id origin : String)
    (payloads : List (String × List Dict)) (inst : Installation b) :
    eng.applyDocs peer_id origin (payloads.map fun p => (p.1, .ofRows p.2)) inst =
      (.ok (eng.applyPayloads peer_id origin payloads inst).1,
        (eng.applyPayloads peer_id origin payloads inst).2) := by
  induction payloads generalizing inst with
  | nil => rfl
  | cons payload payloads ih =>
    have hdoc : eng.applyDoc peer_id origin (payload.1, .ofRows payload.2) inst =
        (.ok (eng.applyPayload peer_id origin payload inst).1,
          (eng.applyPayload peer_id origin payload inst).2) := by
      rw [applyDoc, dicts_ofRows]
      cases hf : eng.backup.contributors.find payload.1 with
      | none =>
        rw [applyPayload, hf]
      | some c => rfl
    rw [List.map_cons, applyDocs, hdoc]
    simp only [ih]
    rfl

/-- On a bundle that was built, `_apply_bundle` raises nothing and does what it does on its
payloads. -/
theorem applyTarball_tarball (eng : MeshSyncEngine b) (bundle : Bytes) (peer_id : String)
    (origin_node_id : Option String) (inst : Installation b) :
    eng.applyTarball bundle.tarball peer_id origin_node_id inst =
      (.ok (eng.applyBundle bundle peer_id origin_node_id inst).1,
        (eng.applyBundle bundle peer_id origin_node_id inst).2) := by
  have hextract := extractTarball_tarball bundle
  rw [applyBundle]
  cases hb : extractBundle bundle with
  | error e =>
    rw [hb] at hextract
    cases ht : extractTarball bundle.tarball with
    | error e => rw [applyTarball_of_error eng ht]
    | ok r =>
      rw [ht] at hextract
      cases hextract
  | ok r =>
    rw [hb] at hextract
    cases ht : extractTarball bundle.tarball with
    | error e =>
      rw [ht] at hextract
      cases hextract
    | ok r' =>
      rw [ht] at hextract
      cases hextract
      rw [applyTarball_of_ok eng ht]
      exact applyDocs_docsOf eng peer_id _ r.2.rows inst

end MeshSyncEngine

end ScottyCore
