import ScottyCore.Backup.SinkListing
import ScottyCore.Backup.StoreApi

namespace ScottyCore
open Python FileSystem LocalDiskSink TransitionSystem
set_option autoImplicit true

/-! ## The index of the store -/

/-- The turn of the loop of `sink_store_index` for one sidecar: nothing where it goes on. -/
def indexRow (libs : SinkLibraries) (root : List String) (app_slug tenant_slug : Option String)
    (t : Disk) (sidecar : List String × String) : Except Exc (Option JsonDict) :=
  match t.find (sidecar.1 ++ [sidecar.2 ++ ".meta.json"]) with
  | some (.file data) => do
    match libs.loads (← readText data) with
    | none => .ok none
    | some sidecarMeta =>
      if ← passesFilter app_slug "app_slug" sidecarMeta then
        if ← passesFilter tenant_slug "tenant_slug" sidecarMeta then
          if sidecar.2 = "" ∨ sidecar.2 = "." then
            .error (.python (.valueError ("Invalid name '" ++ sidecar.2 ++ "'")))
          else
            let bundle := sidecar.1 ++ [sidecar.2]
            if (t.stat bundle).isNone then .ok none
            else
              match sidecarMeta with
              | .obj members =>
                let rel := joinPath (bundle.drop root.length)
                .ok (some (JsonDict.merge [("locator", .str rel)] members))
              | j =>
                .error (.python (.typeError ("'" ++ j.typeName ++ "' object is not a mapping")))
        else .ok none
      else .ok none
  | _ => .ok none

/-- `r.get("created_at", "")`, of which a sort compares texts with texts only. -/
def createdAtKey (row : JsonDict) : Except Exc (String × JsonDict) :=
  match (row.lookup "created_at").getD (.str "") with
  | .str key => .ok (key, row)
  | j => .error (.python (.typeError ("'<' not supported between instances of '" ++ j.typeName ++
      "' and 'str'")))

/-- `out.sort(key=lambda r: r.get("created_at", ""), reverse=True)` -/
def sortRows (rows : List JsonDict) : Except Exc (List JsonDict) :=
  if rows.length ≤ 1 then .ok rows
  else do
    let keyed ← rows.mapM createdAtKey
    .ok ((keyed.mergeSort fun a b => decide (b.1 ≤ a.1)).map Prod.snd)

/-- `sink_store_index` -/
def sinkStoreIndex (libs : SinkLibraries) (root : List String)
    (app_slug tenant_slug : Option String) (t : Disk) : Except Exc (List JsonDict) × Disk :=
  match (Op.makeDirs root).run t with
  | (some f, t) => (.error (faultExc f), t)
  | (none, t) =>
    ((sidecars root t).mapM (indexRow libs root app_slug tenant_slug t) >>=
      fun out => sortRows (out.filterMap id), t)

/-! ## `sinks/scottydev.py` -/

/-- Status and text of the response to a request whose handler raises. -/
def internalServerError : Nat × String := (500, "Internal Server Error")

/-- Status and text of the response to a request that is not carried out. -/
def StoreError.response : StoreError → Nat × String
  | .http e => (e.status_code, "\x7b\"detail\":" ++ quote e.detail ++ "\x7d")
  | .raised _ => internalServerError

/-- `_raise_for_status`, of a response with an error -/
def raiseForStatus (response : Nat × String) (what : String) : Exc :=
  .runtimeError ("orchestrator sink " ++ what ++ " failed: HTTP " ++ toString response.1 ++ " " ++
    String.ofList (response.2.toList.take 400))

/-- The bytes of the sidecar that a client uploads. -/
def devSidecar (libs : SinkLibraries) (blob : BackupBlob Data) : List UInt8 :=
  encodeUtf8 (libs.dumps none (sidecarMeta blob))

/-- `ScottyDevSink`, whose base URL leads to the store at `root`. A request reaches its endpoint as
it was sent, and so does the response; an answer has the status 200. -/
structure ScottyDevSink where
  root : List String

namespace ScottyDevSink

variable (libs : SinkLibraries) (sink : ScottyDevSink)

def put (blob : BackupBlob (List UInt8)) (t : Disk) : Except Exc SinkWriteResult × Disk :=
  match fileNameOf blob with
  | .error e => (.error e, t)
  | .ok rel =>
    let bundle := blob.app_slug ++ "/" ++ rel
    let r1 := (StoreRequest.put bundle blob.data).handle sink.root t
    match r1.answer with
    | .error e => (.error (raiseForStatus e.response "bundle upload"), r1.disk)
    | .ok _ =>
      let r2 :=
        (StoreRequest.put (bundle ++ ".meta.json") (devSidecar libs blob)).handle sink.root r1.disk
      match r2.answer with
      | .error e => (.error (raiseForStatus e.response "sidecar upload"), r2.disk)
      | .ok _ => (.ok ⟨bundle, "scottydev", blob.size, blob.created_at⟩, r2.disk)

/-- What `get` and `delete` raise. -/
def raisedAt (locator what : String) (e : StoreError) : Exc :=
  if e.response.1 = 404 then noSnapshot locator else raiseForStatus e.response what

def get (locator : String) (t : Disk) : Except Exc (List UInt8) × Disk :=
  let r := (StoreRequest.get locator).handle sink.root t
  match r.answer with
  | .error e => (.error (raisedAt locator "bundle download" e), r.disk)
  | .ok (.content data) => (.ok data, r.disk)
  | .ok _ => (.ok [], r.disk)

def delete (locator : String) (t : Disk) : Except Exc Unit × Disk :=
  let r := (StoreRequest.delete locator).handle sink.root t
  match r.answer with
  | .error e => (.error (raisedAt locator "delete" e), r.disk)
  | .ok _ => (.ok (), r.disk)

/-- The entry for a row of the index. -/
def entryOfRow (row : JsonDict) : Except Exc SnapshotEntry :=
  match row.lookup "locator" with
  | some (.str locator) => snapshotEntry libs locator 0 (.obj row)
  | _ => .error (.python (.keyError "locator"))

def listSnapshots (app_slug tenant_slug : Option String) (t : Disk) :
    Except Exc (List SnapshotEntry) × Disk :=
  match sinkStoreIndex libs sink.root app_slug tenant_slug t with
  | (.error _, t) => (.error (raiseForStatus internalServerError "index"), t)
  | (.ok rows, t) => (rows.mapM (entryOfRow libs), t)

end ScottyDevSink

/-! ## What clients make of a store -/

/-- A call of a client, with what it returns. -/
inductive DevEvent where
  | put (blob : BackupBlob (List UInt8)) (result : Except Exc SinkWriteResult)
  | get (locator : String) (result : Except Exc (List UInt8))
  | list (app_slug tenant_slug : Option String) (result : Except Exc (List SnapshotEntry))
  | delete (locator : String) (result : Except Exc Unit)

/-- The calls of clients on one store, one after another. The clients of a store differ in their
configuration only. -/
inductive DevStep (libs : SinkLibraries) (sink : ScottyDevSink) :
    Disk → DevEvent → Disk → Prop where
  | put : sink.put libs blob t = (result, t') → DevStep libs sink t (.put blob result) t'
  | get : sink.get locator t = (result, t') → DevStep libs sink t (.get locator result) t'
  | list : sink.listSnapshots libs app_slug tenant_slug t = (result, t') →
      DevStep libs sink t (.list app_slug tenant_slug result) t'
  | delete : sink.delete locator t = (result, t') →
      DevStep libs sink t (.delete locator result) t'

/-- What a call records: the blob under the locator that a `put` returns, nothing under one that is
deleted. -/
def DevEvent.recorded : DevEvent → Option (String × Option (BackupBlob (List UInt8)))
  | put blob (.ok result) => some (result.locator, some blob)
  | delete locator (.ok _) => some (locator, none)
  | _ => none

/-- The blob of the latest `put` that returned a locator, if it was not deleted since. -/
def storedUnder (es : List DevEvent) (locator : String) : Option (BackupBlob (List UInt8)) :=
  (lastFor DevEvent.recorded es locator).join

/-- A time without a zone is read as UTC. -/
def zoned (d : DateTime) : DateTime :=
  if d.isNaive then d.withOffset (some 0) utc_offset_bounded else d

/-- What a listing shows of a blob. -/
def shownAs (locator : String) (blob : BackupBlob Data) : SnapshotEntry where
  locator := locator
  app_slug := .str blob.app_slug
  scope := .str blob.scope
  kind := .str blob.kind
  size := blob.size
  created_at := zoned blob.created_at
  encrypted := blob.encrypted
  sha256 := .str blob.sha256
  key_fingerprint := optional blob.key_fingerprint
  tenant_slug := optional blob.tenant_slug

/-- A blob passes the filters that are given. -/
def PassesFilters (app_slug tenant_slug : Option String) (blob : BackupBlob Data) : Prop :=
  (∀ slug ∈ app_slug, slug ≠ "" → blob.app_slug = slug) ∧
    ∀ slug ∈ tenant_slug, slug ≠ "" → blob.tenant_slug = some slug

/-- The sink is the map of what was put and not deleted, for locators of a kind. -/
structure BehavesAsMap (libs : SinkLibraries) (sink : ScottyDevSink) (Known : String → Prop)
    (es : List DevEvent) (t : Disk) : Prop where
  get : ∀ locator, Known locator → (sink.get locator t).1 =
    match storedUnder es locator with
    | some blob => .ok blob.data
    | none => .error (noSnapshot locator)
  list : ∀ app_slug tenant_slug, ∃ entries,
    (sink.listSnapshots libs app_slug tenant_slug t).1 = .ok entries ∧
      (entries.map SnapshotEntry.locator).Nodup ∧
      ∀ e, e ∈ entries ↔ ∃ blob, storedUnder es e.locator = some blob ∧
        PassesFilters app_slug tenant_slug blob ∧ e = shownAs e.locator blob
  delete : ∀ locator, Known locator →
    match storedUnder es locator with
    | none => sink.delete locator t = (.error (noSnapshot locator), t)
    | some _ => (sink.delete locator t).1 = .ok () ∧
        ∀ path, (sink.delete locator t).2.find path =
          let bundle := resolveParts (targetParts sink.root locator)
          if path = bundle ∨ path = sibling bundle ".meta.json" then none else t.find path

/-- Letters, digits and hyphens. -/
def IsWord (s : String) : Prop := ∀ c ∈ s.toList, c.isAlphanum = true ∨ c = '-'

instance (s : String) : Decidable (IsWord s) :=
  List.decidableBAll (fun c : Char => c.isAlphanum = true ∨ c = '-') s.toList

/-- A blob of an app, with a sidecar that can be read back. -/
structure Storable (libs : SinkLibraries) (blob : BackupBlob Data) : Prop where
  app_slug : IsWord blob.app_slug ∧ blob.app_slug ≠ ""
  scope : IsWord blob.scope ∧ blob.scope ≠ ""
  kind : IsWord blob.kind
  tenant_slug : ∀ slug ∈ blob.tenant_slug, IsWord slug
  reads : ∃ members, libs.loads (String.ofList (universalNewlines
      (libs.dumps none (sidecarMeta blob)).toList)) = some (.obj members) ∧
    (members.map Prod.fst).Nodup ∧
    ∀ key, key ≠ "metadata" → members.lookup key = (sidecarMeta blob).lookup key

/-- A relative path in normal form that does not name a sidecar. -/
def IsLocator (locator : String) : Prop :=
  (∃ names, names ≠ [] ∧ (∀ name ∈ names, IsName name) ∧ locator = joinPath names) ∧
    ¬ ".meta.json".toList <:+ locator.toList

/-- The condition on a call: its blob is that of an app, its locator names no sidecar. -/
def Proper (libs : SinkLibraries) : DevEvent → Prop
  | .put blob _ => Storable libs blob
  | .get locator _ | .delete locator _ => IsLocator locator
  | .list _ _ _ => True

end ScottyCore
