import Mathlib.Data.List.Basic
import ScottyCore.Core.Database

namespace ScottyCore
open Python
set_option autoImplicit true

inductive BackupScope where
  | platform | tenant
  deriving DecidableEq, Repr

structure ContributorExport where
  rows : List Dict := []
  files : List (String × List UInt8) := []
  deriving Inhabited

structure ManifestContributorEntry where
  id : String
  rows : Int
  files : Int

structure BackupManifest where
  schema_version : Int := 1
  scope : BackupScope
  tenant_slug : Option String
  timestamp : DateTime
  app_name : String
  app_version : String
  contributors : List ManifestContributorEntry

/-- What the bytes of a tar member are read as. -/
inductive Content where
  | manifest (m : BackupManifest)
  | rows (rows : List Dict)
  | raw (bytes : List UInt8)

structure Member where
  name : String
  content : Option Content

/-- The bytes of a bundle: none, no gzipped tarball, or a tarball. -/
inductive Bytes where
  | empty
  | unreadable
  | tarGz (members : List Member)

/-- The payloads of a bundle: contributor ids with their rows, in the order of a `dict`. -/
abbrev Payloads := KeyedTable (String × List Dict) Prod.fst

/-! ## Writing a bundle -/

def manifestName : String := "manifest.json"

def dataName (cid : String) : String := "data/" ++ cid ++ ".json"

def fileName (cid relPath : String) : String := "files/" ++ cid ++ "/" ++ relPath

def payloadMembers (p : String × ContributorExport) : List Member :=
  ⟨dataName p.1, some (.rows p.2.rows)⟩ ::
    p.2.files.map fun f => ⟨fileName p.1 f.1, some (.raw f.2)⟩

def buildTarball (manifest : BackupManifest) (payloads : List (String × ContributorExport)) :
    Bytes :=
  .tarGz (⟨manifestName, some (.manifest manifest)⟩ :: payloads.flatMap payloadMembers)

/-! ## Reading a bundle -/

/-- `tf.getmember("manifest.json")`: the last member of that name. -/
def readManifest (members : List Member) : Except Exc BackupManifest :=
  match members.reverse.find? fun mem => mem.name = manifestName with
  | none => .error (.python (.keyError "filename 'manifest.json' not found"))
  | some ⟨_, none⟩ => .error (.python (.valueError "Missing manifest.json in bundle"))
  | some ⟨_, some (.manifest m)⟩ => .ok m
  | some _ => .error (.python (.valueError "Invalid JSON for BackupManifest"))

/-- The contributor id of a `data/<contributor_id>.json` member. -/
def contributorOf (name : String) : Option String :=
  match List.isPrefixOf? "data/".toList name.toList with
  | some rest => (List.isSuffixOf? ".json".toList rest).map String.ofList
  | none => none

def readMember (data : Payloads) (mem : Member) : Except Exc Payloads :=
  match contributorOf mem.name, mem.content with
  | some cid, some (.rows rows) => .ok (data.upsert (cid, rows))
  | some _, some _ => .error (.python (.valueError "Expecting value: line 1 column 1 (char 0)"))
  | _, _ => .ok data

def extractBundle : Bytes → Except Exc (BackupManifest × Payloads)
  | .empty => .error (.readError "empty file")
  | .unreadable => .error (.readError "not a gzip file")
  | .tarGz members => do
    let manifest ← readManifest members
    let data ← members.foldlM readMember ∅
    .ok (manifest, data)

/-! ## What was written is read back -/

theorem contributorOf_dataName (cid : String) : contributorOf (dataName cid) = some cid := by
  have hpre : List.isPrefixOf? "data/".toList (dataName cid).toList =
      some (cid ++ ".json").toList := by
    rw [List.isPrefixOf?_eq_some_iff_append_eq, dataName, String.append_assoc]
    exact String.toList_append.symm
  have hsuf : List.isSuffixOf? ".json".toList (cid ++ ".json").toList = some cid.toList := by
    rw [List.isSuffixOf?_eq_some_iff_append_eq]
    exact String.toList_append.symm
  rw [contributorOf, hpre]
  simp only [hsuf, Option.map_some, String.ofList_toList]

theorem contributorOf_of_head (h : name.toList.head? ≠ some 'd') : contributorOf name = none := by
  have hpre : List.isPrefixOf? "data/".toList name.toList = none := by
    rw [Option.eq_none_iff_forall_ne_some]
    intro rest hrest
    rw [List.isPrefixOf?_eq_some_iff_append_eq] at hrest
    apply h
    rw [← hrest]
    rfl
  rw [contributorOf, hpre]

theorem contributorOf_fileName (cid relPath : String) :
    contributorOf (fileName cid relPath) = none := by
  apply contributorOf_of_head
  simp only [fileName, String.append_assoc, String.toList_append]
  exact (by decide : (some 'f' : Option Char) ≠ some 'd')

theorem readMember_files (data : Payloads) (cid : String) (files : List (String × List UInt8)) :
    (files.map fun f => (⟨fileName cid f.1, some (.raw f.2)⟩ : Member)).foldlM readMember data =
      .ok data := by
  induction files with
  | nil => rfl
  | cons f files ih =>
    have hstep : readMember data ⟨fileName cid f.1, some (.raw f.2)⟩ = .ok data := by
      rw [readMember, contributorOf_fileName]
    rw [List.map_cons, List.foldlM_cons, hstep]
    exact ih

theorem readMember_payload (data : Payloads) (p : String × ContributorExport) :
    (payloadMembers p).foldlM readMember data = .ok (data.upsert (p.1, p.2.rows)) := by
  have hstep : readMember data ⟨dataName p.1, some (.rows p.2.rows)⟩ =
      .ok (data.upsert (p.1, p.2.rows)) := by
    rw [readMember, contributorOf_dataName]
  rw [payloadMembers, List.foldlM_cons, hstep]
  exact readMember_files _ _ _

theorem readMember_payloads {payloads : List (String × ContributorExport)} (data : Payloads)
    (hn : (payloads.map Prod.fst).Nodup)
    (hd : ∀ p ∈ payloads, p.1 ∉ data.rows.map Prod.fst) :
    ∃ data', (payloads.flatMap payloadMembers).foldlM readMember data = .ok data' ∧
      data'.rows = data.rows ++ payloads.map fun p => (p.1, p.2.rows) := by
  induction payloads generalizing data with
  | nil => exact ⟨data, rfl, (List.append_nil _).symm⟩
  | cons p payloads ih =>
    obtain ⟨hp, hn'⟩ := List.nodup_cons.1 hn
    have hrows : (data.upsert (p.1, p.2.rows)).rows = data.rows ++ [(p.1, p.2.rows)] :=
      KeyedTable.upsertRows_of_not_mem (hd p List.mem_cons_self)
    obtain ⟨data', hfold, hdata⟩ := ih (data.upsert (p.1, p.2.rows)) hn' <| by
      intro q hq hmem
      rw [hrows, List.map_append, List.mem_append] at hmem
      rcases hmem with hmem | hmem
      · exact hd q (List.mem_cons_of_mem _ hq) hmem
      · exact hp (List.mem_map.2 ⟨q, hq, List.mem_singleton.1 hmem⟩)
    refine ⟨data', ?_, ?_⟩
    · rw [List.flatMap_cons, List.foldlM_append, readMember_payload]
      exact hfold
    · rw [hdata, hrows, List.map_cons, List.append_assoc, List.singleton_append]

theorem name_of_mem_payloadMembers (h : mem ∈ payloadMembers p) : mem.name ≠ manifestName := by
  have hhead : ∀ {name : String}, name.toList.head? ≠ some 'm' → name ≠ manifestName := by
    intro name hne he
    subst he
    exact hne rfl
  apply hhead
  rcases List.mem_cons.1 h with rfl | h
  · simp only [dataName, String.append_assoc, String.toList_append]
    exact (by decide : (some 'd' : Option Char) ≠ some 'm')
  · obtain ⟨f, _, rfl⟩ := List.mem_map.1 h
    simp only [fileName, String.append_assoc, String.toList_append]
    exact (by decide : (some 'f' : Option Char) ≠ some 'm')

theorem readManifest_buildTarball (manifest : BackupManifest)
    (payloads : List (String × ContributorExport)) :
    readManifest (⟨manifestName, some (.manifest manifest)⟩ ::
      payloads.flatMap payloadMembers) = .ok manifest := by
  have hrest : (payloads.flatMap payloadMembers).reverse.find?
      (fun mem => mem.name = manifestName) = none := by
    rw [List.find?_eq_none]
    intro mem hmem
    obtain ⟨p, _, hp⟩ := List.mem_flatMap.1 (List.mem_reverse.1 hmem)
    simpa only [decide_eq_true_eq] using name_of_mem_payloadMembers hp
  rw [readManifest, List.reverse_cons, List.find?_append, hrest]
  rfl

/-- A bundle is read back as its manifest and the rows of each payload, in their order. -/
theorem extractBundle_buildTarball (manifest : BackupManifest)
    {payloads : List (String × ContributorExport)} (hn : (payloads.map Prod.fst).Nodup) :
    ∃ data : Payloads, extractBundle (buildTarball manifest payloads) = .ok (manifest, data) ∧
      data.rows = payloads.map fun p => (p.1, p.2.rows) := by
  obtain ⟨data, hfold, hdata⟩ := readMember_payloads ∅ hn fun _ _ h => nomatch h
  refine ⟨data, ?_, hdata⟩
  have hmanifest : readMember ∅ ⟨manifestName, some (.manifest manifest)⟩ = .ok ∅ := by
    have hname : contributorOf manifestName = none := contributorOf_of_head (by decide)
    rw [readMember, hname]
  rw [buildTarball, extractBundle, readManifest_buildTarball, List.foldlM_cons, hmanifest]
  change ((payloads.flatMap payloadMembers).foldlM readMember ∅ >>= fun data =>
    Except.ok (manifest, data)) = _
  rw [hfold]
  rfl

end ScottyCore
