import ScottyCore.Backup.TenantIdentity
import ScottyCore.Lib.Bytes

namespace ScottyCore
open Python
set_option autoImplicit true

/-! ## One member -/

theorem fileOf_eq (name : String) :
    fileOf name = (List.isPrefixOf? "files/".toList name.toList).bind fun rest =>
      (splitOnce '/' rest).map fun p => (String.ofList p.1, String.ofList p.2) := by
  rw [fileOf]
  cases List.isPrefixOf? "files/".toList name.toList with
  | none => rfl
  | some rest =>
    simp only [Option.bind_some, splitOnce]
    cases rest.dropWhile (· ≠ '/') with
    | nil => rfl
    | cons c rel => rfl

/-- A contributor id without a slash is told apart from the path behind it. -/
theorem fileOf_fileName (h : '/' ∉ cid.toList) (rel_path : String) :
    fileOf (fileName cid rel_path) = some (cid, rel_path) := by
  have hpre : List.isPrefixOf? "files/".toList (fileName cid rel_path).toList =
      some (cid ++ "/" ++ rel_path).toList := by
    rw [List.isPrefixOf?_eq_some_iff_append_eq, fileName, String.append_assoc,
      String.append_assoc, String.append_assoc]
    exact String.toList_append.symm
  have hsplit : splitOnce '/' (cid ++ "/" ++ rel_path).toList =
      some (cid.toList, rel_path.toList) := by
    rw [String.append_assoc, String.toList_append, String.toList_append]
    apply splitOnce_append
    rintro c hc rfl
    exact h hc
  rw [fileOf_eq, hpre, Option.bind_some, hsplit, Option.map_some, String.ofList_toList,
    String.ofList_toList]

/-! ## The members of a payload -/

def filesMembers (cid : String) (files : List (String × List UInt8)) : List TarMember :=
  files.map fun f => tarMember ⟨fileName cid f.1, some (.raw f.2)⟩

theorem readTarMember_filesOf (data : ContributorData) (h : '/' ∉ cid.toList) (rows : JsonDoc)
    (files more : List (String × List UInt8)) :
    (filesMembers cid more).foldlM readTarMember (data.upsert (cid, ⟨rows, files⟩)) =
      .ok (data.upsert (cid, ⟨rows, files ++ more⟩)) := by
  induction more generalizing files with
  | nil =>
    rw [List.append_nil]
    rfl
  | cons f more ih =>
    have hstep : readTarMember (data.upsert (cid, ⟨rows, files⟩))
        (tarMember ⟨fileName cid f.1, some (.raw f.2)⟩) =
          .ok (data.upsert (cid, ⟨rows, files ++ [f]⟩)) := by
      rw [tarMember, readTarMember]
      simp only [Option.map_some, contributorOf_fileName, fileOf_fileName h, payload_upsert,
        if_true]
      exact congrArg Except.ok (KeyedTable.upsert_upsert data rfl)
    rw [filesMembers, List.map_cons, List.foldlM_cons, hstep]
    have hrest := ih (files ++ [f])
    rw [List.append_assoc, List.singleton_append] at hrest
    exact hrest

/-- Of a contributor that was not read before, a payload is read as it was written. -/
theorem readTarMember_payloadOf {data : ContributorData} (h : '/' ∉ p.1.toList)
    (hnew : p.1 ∉ data.rows.map Prod.fst) :
    ((payloadMembers p).map tarMember).foldlM readTarMember data =
      .ok (data.upsert (p.1, ⟨.ofRows p.2.rows, p.2.files⟩)) := by
  have hnone : data.find p.1 = none := by
    rw [KeyedTable.find_eq_none_iff]
    intro q hq he
    exact hnew (he ▸ List.mem_map_of_mem hq)
  have hrows : readTarMember data (tarMember ⟨dataName p.1, some (.rows p.2.rows)⟩) =
      .ok (data.upsert (p.1, ⟨.ofRows p.2.rows, []⟩)) := by
    rw [tarMember, readTarMember]
    simp only [Option.map_some, contributorOf_dataName, ContributorData.payload, hnone]
    rfl
  have hfiles := readTarMember_filesOf data h (.ofRows p.2.rows) [] p.2.files
  rw [payloadMembers, List.map_cons, List.foldlM_cons, hrows, List.map_map]
  exact hfiles

theorem readTarMember_payloadsOf {payloads : List (String × ContributorExport)}
    (data : ContributorData) (hn : (payloads.map Prod.fst).Nodup)
    (hslash : ∀ p ∈ payloads, '/' ∉ p.1.toList)
    (hnew : ∀ p ∈ payloads, p.1 ∉ data.rows.map Prod.fst) :
    ∃ data', ((payloads.flatMap payloadMembers).map tarMember).foldlM readTarMember data =
        .ok data' ∧
      data'.rows = data.rows ++ payloads.map fun p => (p.1, ⟨.ofRows p.2.rows, p.2.files⟩) := by
  induction payloads generalizing data with
  | nil => exact ⟨data, rfl, (List.append_nil _).symm⟩
  | cons p payloads ih =>
    obtain ⟨hp, hn⟩ := List.nodup_cons.1 hn
    have hhead := readTarMember_payloadOf (hslash p List.mem_cons_self)
      (hnew p List.mem_cons_self)
    have hrows : (data.upsert (p.1, ⟨.ofRows p.2.rows, p.2.files⟩)).rows =
        data.rows ++ [(p.1, ⟨.ofRows p.2.rows, p.2.files⟩)] :=
      KeyedTable.upsertRows_of_not_mem (hnew p List.mem_cons_self)
    have hrest : ∀ q ∈ payloads,
        q.1 ∉ (data.upsert (p.1, ⟨.ofRows p.2.rows, p.2.files⟩)).rows.map Prod.fst := by
      intro q hq hmem
      rw [hrows, List.map_append, List.mem_append] at hmem
      rcases hmem with hmem | hmem
      · exact hnew q (List.mem_cons_of_mem _ hq) hmem
      · exact hp (List.mem_map.2 ⟨q, hq, List.mem_singleton.1 hmem⟩)
    obtain ⟨data', hfold, hdata⟩ :=
      ih _ hn (fun q hq => hslash q (List.mem_cons_of_mem _ hq)) hrest
    refine ⟨data', ?_, ?_⟩
    · rw [List.flatMap_cons, List.map_append, List.foldlM_append, hhead]
      exact hfold
    · rw [hdata, hrows, List.map_cons, List.append_assoc, List.singleton_append]

/-! ## A bundle -/

/-- Payloads whose member names a tarball keeps as they are. -/
structure Packable (payloads : List (String × ContributorExport)) : Prop where
  distinct : (payloads.map Prod.fst).Nodup
  ids : ∀ p ∈ payloads, p.1 ≠ "" ∧ '/' ∉ p.1.toList
  paths : ∀ p ∈ payloads, ∀ f ∈ p.2.files, f.1 ≠ "" ∧ f.1.toList.head? ≠ some '/' ∧
    f.1.toList.getLast? ≠ some '/' ∧ '\x00' ∉ f.1.toList

/-- A bundle is opened as the manifest and, for each contributor, the rows and the files that were
put into it, in their order. -/
theorem unpack_packed (manifest : BackupManifest)
    {payloads : List (String × ContributorExport)} (h : Packable payloads) :
    ∃ data, unpack (buildTarball manifest payloads).tarball = .ok (manifest, data) ∧
      data.rows = payloads.map fun p => (p.1, ⟨.ofRows p.2.rows, p.2.files⟩) := by
  obtain ⟨data, hfold, hrows⟩ := readTarMember_payloadsOf ∅ h.distinct
    (fun p hp => (h.ids p hp).2) fun _ _ => List.not_mem_nil
  refine ⟨data, ?_, hrows⟩
  have hmembers : (buildTarball manifest payloads).tarball = .ok
      (tarMember ⟨manifestName, some (.manifest manifest)⟩ ::
        (payloads.flatMap payloadMembers).map tarMember) := rfl
  rw [hmembers]
  apply bind_eq_ok.2
  refine ⟨_, rfl, bind_eq_ok.2 ⟨_, tarManifest_buildTarball manifest payloads, ?_⟩⟩
  refine bind_eq_ok.2 ⟨data, ?_, rfl⟩
  rw [List.foldlM_cons, readTarMember_manifest]
  exact hfold

def newYearManifest : BackupManifest := ⟨1, .platform, none, newYear, "app", "1.0", []⟩

/-- An id that ends like a data member, and a path that is named like one, twice. -/
theorem unpack_packed_lookalike : ∃ data, unpack (buildTarball newYearManifest
      [("users.json", { files := [("data/users.json", [1]), ("data/users.json", [2])] }),
        ("data", { rows := [[("id", .str "a")]] })]).tarball = .ok (newYearManifest, data) ∧
    data.rows = [("users.json", ⟨.ofRows [], [("data/users.json", [1]), ("data/users.json", [2])]⟩),
      ("data", ⟨.ofRows [[("id", .str "a")]], []⟩)] := by
  apply unpack_packed
  constructor
  · decide
  · decide
  · decide

end ScottyCore
