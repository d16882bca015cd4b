import ScottyCore.Core.Stored
import ScottyCore.Sync.Extraction

namespace ScottyCore
open Python
set_option autoImplicit true

variable {b : Backend} {m : Model}

/-! ## Applying rows where calls fail -/

/-- The calls that fail while one row is applied, beyond what the row itself makes fail. What
fails is rolled back. -/
structure RowFaults where
  get_row : Bool := false
  create_conflict : Bool := false
  restore : Bool := false
  record_row_origin : Bool := false

inductive Count where
  | applied | skipped | conflict
  deriving DecidableEq

/-- What became of a row: how it is counted, whether its origin was recorded, and the
installation afterwards. -/
structure RowReport (b : Backend) where
  count : Count
  recorded : Bool
  inst : Installation b

/-- A row of a bundle with the installation that its turn found. -/
structure RowEntry (b : Backend) where
  contributor_id : String
  row : Dict
  filtered : Bool
  faults : RowFaults
  before : Installation b
  report : RowReport b

def RowReport.skip (inst : Installation b) : RowReport b := ⟨.skipped, false, inst⟩

/-- The outcome of a row without failing calls, as it is counted. -/
def RowOutcome.count : RowOutcome → Count
  | applied => .applied
  | conflict => .conflict
  | filtered | incomparable _ | restoreFailed _ => .skipped

namespace MeshSyncEngine

def reportRestore (faults : RowFaults) (c : Contributor b) (origin_node_id : String) (row : Dict)
    (inst : Installation b) : RowReport b :=
  if faults.restore then .skip inst
  else
    match c.restore .platform (row.get "tenant_id") (.ofRows [row]) [] inst.db with
    | (.error _, db) => .skip { inst with db := db }
    | (.ok _, db) =>
      if faults.record_row_origin then .skip { inst with db := db }
      else ⟨.applied, true,
        recordRowOrigin c.contributor_id (rowId row) origin_node_id { inst with db := db }⟩

/-- The body of the loop of `_apply_contributor_rows`, whose one handler counts whatever raises
as skipped. -/
def reportRow (eng : MeshSyncEngine b) (faults : RowFaults) (c : Contributor b)
    (peer_id origin_node_id : String) (row : Dict) (inst : Installation b) : RowReport b :=
  let remote_updated_at := parseTs (row.get "updated_at")
  let local_row := localRow c row inst
  let local_updated_at := local_row.bind fun r => parseTs (r.get "updated_at")
  if faults.get_row ∧ c.getRow.isSome ∧ rowId row ≠ "" then .skip inst
  else
    match lwwRemoteWins remote_updated_at local_updated_at origin_node_id eng.local_node.id with
    | .error _ => .skip inst
    | .ok false =>
      if local_updated_at.isSome ∧ remote_updated_at.isSome then
        if faults.create_conflict then .skip inst
        else ⟨.conflict, false, createConflict (conflictOf c peer_id row inst) inst⟩
      else reportRestore faults c origin_node_id row inst
    | .ok true => reportRestore faults c origin_node_id row inst

def entryOf (eng : MeshSyncEngine b) (faults : RowFaults) (c : Contributor b)
    (peer_id origin_node_id : String) (row : Dict) (inst : Installation b) : RowEntry b :=
  ⟨c.contributor_id, row, false, faults, inst, eng.reportRow faults c peer_id origin_node_id row inst⟩

def filteredEntry (cid : String) (inst : Installation b) (row : Dict) : RowEntry b :=
  ⟨cid, row, true, {}, inst, .skip inst⟩

/-- `_apply_contributor_rows`; each row has its own failing calls. -/
def reportRows (eng : MeshSyncEngine b) (faults : Nat → RowFaults) (c : Contributor b)
    (peer_id origin_node_id : String) :
    Nat → List Dict → Installation b → List (RowEntry b) × Installation b
  | _, [], inst => ([], inst)
  | n, row :: rows, inst =>
    let entry := eng.entryOf (faults n) c peer_id origin_node_id row inst
    let (entries, inst) :=
      eng.reportRows faults c peer_id origin_node_id (n + 1) rows entry.report.inst
    (entry :: entries, inst)

/-- The rest of the body of the loop of `_apply_bundle`, for a registered contributor. -/
def reportPayload (eng : MeshSyncEngine b) (faults : Nat → RowFaults) (c : Contributor b)
    (peer_id origin_node_id : String) (rows : List Dict) (inst : Installation b) :
    List (RowEntry b) × Installation b :=
  let keeps := keepsRow c.contributor_id [eng.local_node.id] inst
  let (entries, last) :=
    eng.reportRows faults c peer_id origin_node_id 0 (rows.filter keeps) inst
  ((rows.filter fun row => !keeps row).map (filteredEntry c.contributor_id inst) ++ entries, last)

/-- The loop of `_apply_bundle`. The failing calls are given for each contributor and row. -/
def reportDocs (eng : MeshSyncEngine b) (faults : String → Nat → RowFaults)
    (peer_id origin_node_id : String) :
    List (String × JsonDoc) → Installation b → Except Exc (List (RowEntry b)) × Installation b
  | [], inst => (.ok [], inst)
  | payload :: payloads, inst =>
    match eng.backup.contributors.find payload.1 with
    | none => eng.reportDocs faults peer_id origin_node_id payloads inst
    | some c =>
      match payload.2.dicts with
      | .error e => (.error e, inst)
      | .ok rows =>
        let (entries, inst) :=
          eng.reportPayload (faults payload.1) c peer_id origin_node_id rows inst
        let (rest, inst) := eng.reportDocs faults peer_id origin_node_id payloads inst
        (rest.map (entries ++ ·), inst)

/-- `_apply_bundle`, with a report on every row in place of its three counts. -/
def reportTarball (eng : MeshSyncEngine b) (faults : String → Nat → RowFaults) (bundle : Tarball)
    (peer_id : String) (origin_node_id : Option String) (inst : Installation b) :
    Except Exc (List (RowEntry b)) × Installation b :=
  match extractTarball bundle with
  | .error _ => (.ok [], inst)
  | .ok (_, data) => eng.reportDocs faults peer_id (originOf origin_node_id) data.rows inst

end MeshSyncEngine

/-- What is reported of a row. -/
def RowEntry.line (e : RowEntry b) : String × Dict × Count :=
  (e.contributor_id, e.row, e.report.count)

/-- `(rows_applied, rows_skipped, conflicts_created)` -/
def counters (entries : List (RowEntry b)) : Nat × Nat × Nat :=
  (entries.countP fun e => e.report.count = .applied,
    entries.countP fun e => e.report.count = .skipped,
    entries.countP fun e => e.report.count = .conflict)

/-! ## Truthful accounts -/

/-- The store holds a row of a payload. -/
def StoresRow (cid : String) (row : Dict) (db : Database b) : Prop :=
  ∃ m, route cid row = .ok (some m) ∧ Holds m row db

/-- The count of a row says what became of it: applied, that the store holds it and its origin was
recorded; skipped, that nothing was changed or recorded; conflict, that the stored rows stay and
one conflict is added. -/
structure Truthful (origin : String) (e : RowEntry b) : Prop where
  applied : e.report.count = .applied ↔ StoresRow e.contributor_id e.row e.report.inst.db ∧
    e.report.recorded = true ∧
    ∃ o, getRowOrigin e.contributor_id (rowId e.row) e.report.inst = some o ∧
      o.origin_node_id = origin
  skipped : e.report.count = .skipped ↔ e.report.inst.db.table = e.before.db.table ∧
    e.report.recorded = false ∧ e.report.inst.sync_row_origin = e.before.sync_row_origin ∧
    e.report.inst.sync_conflicts = e.before.sync_conflicts
  conflict : e.report.count = .conflict ↔ e.report.inst.db.table = e.before.db.table ∧
    ∃ c, e.report.inst.sync_conflicts = e.before.sync_conflicts ++ [c] ∧
      c.resource_type = e.contributor_id ∧ c.resource_id = rowId e.row

/-- Merging a row changes the store. -/
def Moves (m : Model) (row : Dict) (db : Database b) : Prop :=
  ∃ db', mergeRow m row db = .ok db' ∧ db'.table ≠ db.table

/-- Merging a row stores something else than the row. -/
def Overrides (m : Model) (row : Dict) (db : Database b) : Prop :=
  (∃ db', mergeRow m row db = .ok db') ∧ (Touches m row db ∨ Defaulted m row db)

/-- The row is restored: LWW lets it in, and neither reading the stored row nor the contributor's
transaction fails. -/
def Restored (origin loc : String) (e : RowEntry b) : Prop :=
  e.filtered = false ∧ verdict e.contributor_id e.row origin loc e.before.db = .ok true ∧
    e.faults.restore = false ∧ (e.faults.get_row = true →
      readModel e.contributor_id = none ∨ rowId e.row = "")

/-- A restored row meets its count: the contributor does not drop it, merging it stores the row
itself, and its origin is recorded. Where recording fails, merging it has changed nothing. -/
def Accountable (origin loc : String) (e : RowEntry b) : Prop :=
  Restored origin loc e →
    if e.faults.record_row_origin then
      ∀ m, route e.contributor_id e.row = .ok (some m) → ¬ Moves m e.row e.before.db
    else
      route e.contributor_id e.row ≠ .ok none ∧
        ∀ m, route e.contributor_id e.row = .ok (some m) → ¬ Overrides m e.row e.before.db

theorem ne_append_singleton (l : List α) (a : α) : l ≠ l ++ [a] := by
  intro h
  cases List.self_eq_append_right.1 h

theorem truthful_skip {e : RowEntry b} (origin : String) (h : e.report = .skip e.before) :
    Truthful origin e := by
  constructor
  · rw [h]
    exact ⟨nofun, fun hs => by cases hs.2.1⟩
  · rw [h]
    exact ⟨fun _ => ⟨rfl, rfl, rfl, rfl⟩, fun _ => rfl⟩
  · rw [h]
    refine ⟨nofun, ?_⟩
    rintro ⟨_, c, hc, _⟩
    exact (ne_append_singleton _ c hc).elim

namespace MeshSyncEngine

variable {eng : MeshSyncEngine b} {c : Contributor b} {inst : Installation b}

theorem reportRow_eq (hc : Registered c) (faults : RowFaults) (peer_id origin : String)
    (row : Dict) (inst : Installation b) :
    eng.reportRow faults c peer_id origin row inst =
      if faults.get_row ∧ c.getRow.isSome ∧ rowId row ≠ "" then .skip inst
      else
        match verdict c.contributor_id row origin eng.local_node.id inst.db with
        | .error _ => .skip inst
        | .ok false => if faults.create_conflict then .skip inst
            else ⟨.conflict, false, createConflict (conflictOf c peer_id row inst) inst⟩
        | .ok true => reportRestore faults c origin row inst := by
  simp only [reportRow, localRow_stamp hc]
  refine if_congr Iff.rfl rfl ?_
  change (match verdict c.contributor_id row origin eng.local_node.id inst.db with
    | .error e => _ | .ok false => _ | .ok true => _) = _
  cases hv : verdict c.contributor_id row origin eng.local_node.id inst.db with
  | error e => rfl
  | ok wins =>
    cases wins with
    | true => rfl
    | false =>
      have hsome := isSome_of_lww_false hv
      simp only [hsome, and_self, if_true]

theorem reportRestore_eq (hc : Registered c) (faults : RowFaults) (origin : String) (row : Dict)
    (inst : Installation b) :
    reportRestore faults c origin row inst =
      if faults.restore then .skip inst
      else
        match (route c.contributor_id row).bind (restoreInto row inst.db) with
        | .error _ => .skip inst
        | .ok (_, db) =>
          if faults.record_row_origin then .skip { inst with db := db }
          else ⟨.applied, true,
            recordRowOrigin c.contributor_id (rowId row) origin { inst with db := db }⟩ := by
  rw [reportRestore, restore_row hc]
  cases (route c.contributor_id row).bind (restoreInto row inst.db) with
  | error e => rfl
  | ok r => rfl

theorem getRow_isSome (hc : Registered c) :
    c.getRow.isSome = (readModel c.contributor_id).isSome := by
  rw [getRow_registered hc, Option.isSome_map]

/-- A restored row in a store that was brought to `db`, with a failing record or without. -/
def restoredEntry (cid : String) (row : Dict) (faults : RowFaults) (before : Installation b)
    (origin : String) (db : Database b) : RowEntry b :=
  ⟨cid, row, false, faults, before,
    if faults.record_row_origin then .skip { before with db := db }
    else ⟨.applied, true, recordRowOrigin cid (rowId row) origin { before with db := db }⟩⟩

theorem truthful_restoredEntry (cid : String) (row : Dict) (faults : RowFaults)
    (before : Installation b) (origin : String) (db : Database b) :
    Truthful origin (restoredEntry cid row faults before origin db) ↔
      if faults.record_row_origin then db.table = before.db.table else StoresRow cid row db := by
  rw [restoredEntry]
  cases faults.record_row_origin with
  | true =>
    rw [if_pos rfl, if_pos rfl]
    constructor
    · intro h
      exact (h.skipped.1 rfl).1
    · intro h
      refine ⟨⟨nofun, fun hs => by cases hs.2.1⟩, ⟨fun _ => ⟨h, rfl, rfl, rfl⟩, fun _ => rfl⟩,
        ⟨nofun, ?_⟩⟩
      rintro ⟨_, c, hc, _⟩
      exact (ne_append_singleton _ c hc).elim
  | false =>
    rw [if_neg Bool.false_ne_true, if_neg Bool.false_ne_true]
    have hfind : getRowOrigin cid (rowId row)
        (recordRowOrigin cid (rowId row) origin { before with db := db }) =
          some ⟨cid, rowId row, origin, db.now⟩ :=
      KeyedTable.find_upsert_self before.sync_row_origin ⟨cid, rowId row, origin, db.now⟩
    constructor
    · intro h
      exact (h.applied.1 rfl).1
    · intro h
      refine ⟨⟨fun _ => ⟨h, rfl, _, hfind, rfl⟩, fun _ => rfl⟩, ⟨nofun, fun hs => by cases hs.2.1⟩,
        ⟨nofun, ?_⟩⟩
      rintro ⟨_, c, hc, _⟩
      exact (ne_append_singleton _ c hc).elim

theorem accountable_of_not_restored {e : RowEntry b} (h : ¬ Restored origin loc e) :
    Accountable origin loc e := fun hr => (h hr).elim

/-- A restore that fails by itself leaves nothing to account for. -/
theorem accountable_of_fails {e : RowEntry b}
    (h : ∀ r, (route e.contributor_id e.row).bind (restoreInto e.row e.before.db) ≠ .ok r) :
    Accountable origin loc e := by
  have hmerge : ∀ m db', route e.contributor_id e.row = .ok (some m) →
      mergeRow m e.row e.before.db ≠ .ok db' := by
    intro m db' hroute hmerge
    apply h (1, db')
    rw [hroute]
    exact map_eq_ok.2 ⟨db', hmerge, rfl⟩
  intro _
  split
  · rintro m hroute ⟨db', hdb, _⟩
    exact hmerge m db' hroute hdb
  · refine ⟨fun hroute => h (0, e.before.db) (by rw [hroute]; rfl), ?_⟩
    rintro m hroute ⟨⟨db', hdb⟩, _⟩
    exact hmerge m db' hroute hdb

theorem accountable_restoredEntry {cid origin loc : String} {row : Dict} {faults : RowFaults}
    {before : Installation b} {db : Database b} {n : Nat}
    (hr : Restored origin loc (restoredEntry cid row faults before origin db))
    (h : (route cid row).bind (restoreInto row before.db) = .ok (n, db)) :
    (if faults.record_row_origin then db.table = before.db.table else StoresRow cid row db) ↔
      Accountable origin loc (restoredEntry cid row faults before origin db) := by
  obtain ⟨target, hroute, hinto⟩ := bind_eq_ok.1 h
  have hacc : Accountable origin loc (restoredEntry cid row faults before origin db) ↔
      if faults.record_row_origin then ∀ m, route cid row = .ok (some m) → ¬ Moves m row before.db
      else route cid row ≠ .ok none ∧
        ∀ m, route cid row = .ok (some m) → ¬ Overrides m row before.db :=
    ⟨fun ha => ha hr, fun ha _ => ha⟩
  rw [hacc, hroute]
  cases target with
  | none =>
    cases hinto
    split
    · exact ⟨fun _ => nofun, fun _ => rfl⟩
    · constructor
      · rintro ⟨m, hm, _⟩
        cases hroute.symm.trans hm
      · rintro ⟨hne, _⟩
        exact (hne rfl).elim
  | some m =>
    obtain ⟨db', hmerge, he⟩ := map_eq_ok.1 hinto
    cases he
    split
    · constructor
      · rintro hsame _ ⟨⟩ ⟨db'', hmerge', hne⟩
        cases hmerge.symm.trans hmerge'
        exact hne hsame
      · intro hno
        by_contra hne
        exact hno m rfl ⟨db, hmerge, hne⟩
    · have hholds := holds_mergeRow_iff hmerge
      constructor
      · rintro ⟨m', hm', hstored⟩
        cases hroute.symm.trans hm'
        refine ⟨nofun, ?_⟩
        rintro _ ⟨⟩ ⟨_, hover⟩
        exact hover.elim (hholds.1 hstored).1 (hholds.1 hstored).2
      · rintro ⟨_, hno⟩
        refine ⟨m, hroute, hholds.2 ⟨?_, ?_⟩⟩
        · intro ht
          exact hno m rfl ⟨⟨db, hmerge⟩, .inl ht⟩
        · intro hd
          exact hno m rfl ⟨⟨db, hmerge⟩, .inr hd⟩

theorem truthful_conflict {e : RowEntry b}
    (hreport : e.report = ⟨.conflict, false, createConflict (conflictOf c peer_id e.row e.before)
      e.before⟩) (hcid : e.contributor_id = c.contributor_id) : Truthful origin e := by
  constructor
  · rw [hreport]
    exact ⟨nofun, fun hs => by cases hs.2.1⟩
  · rw [hreport]
    exact ⟨nofun, fun hs => (ne_append_singleton _ _ hs.2.2.2.symm).elim⟩
  · rw [hreport]
    exact ⟨fun _ => ⟨rfl, _, rfl, hcid.symm, rfl⟩, fun _ => rfl⟩

/-- The count of a row is truthful exactly when the row is accountable. -/
theorem truthful_entryOf (hc : Registered c) (faults : RowFaults) (peer_id origin : String)
    (row : Dict) (inst : Installation b) :
    Truthful origin (eng.entryOf faults c peer_id origin row inst) ↔
      Accountable origin eng.local_node.id (eng.entryOf faults c peer_id origin row inst) := by
  have hreport := @reportRow_eq b eng _ hc faults peer_id origin row inst
  by_cases hread : faults.get_row ∧ c.getRow.isSome ∧ rowId row ≠ ""
  · rw [if_pos hread] at hreport
    refine iff_of_true (truthful_skip origin hreport) (accountable_of_not_restored ?_)
    rintro ⟨_, _, _, hno⟩
    rw [getRow_isSome hc] at hread
    rcases hno hread.1 with hnone | hempty
    · rw [show readModel c.contributor_id = none from hnone] at hread
      cases hread.2.1
    · exact hread.2.2 hempty
  · rw [if_neg hread] at hreport
    cases hv : verdict c.contributor_id row origin eng.local_node.id inst.db with
    | error e =>
      rw [hv] at hreport
      refine iff_of_true (truthful_skip origin hreport) (accountable_of_not_restored ?_)
      rintro ⟨_, hwins, _⟩
      cases hv.symm.trans hwins
    | ok wins =>
      rw [hv] at hreport
      cases wins with
      | false =>
        refine iff_of_true ?_ (accountable_of_not_restored ?_)
        · cases hf : faults.create_conflict with
          | true =>
            rw [hf] at hreport
            exact truthful_skip origin hreport
          | false =>
            rw [hf] at hreport
            exact truthful_conflict hreport rfl
        · rintro ⟨_, hwins, _⟩
          cases hv.symm.trans hwins
      | true =>
        rw [reportRestore_eq hc] at hreport
        cases hf : faults.restore with
        | true =>
          rw [hf] at hreport
          refine iff_of_true (truthful_skip origin hreport) (accountable_of_not_restored ?_)
          rintro ⟨_, _, hok, _⟩
          cases hf.symm.trans hok
        | false =>
          rw [hf] at hreport
          cases hinto : (route c.contributor_id row).bind (restoreInto row inst.db) with
          | error e =>
            rw [hinto] at hreport
            refine iff_of_true (truthful_skip origin hreport) (accountable_of_fails ?_)
            intro r hr
            cases hinto.symm.trans hr
          | ok r =>
            rw [hinto] at hreport
            have hentry : eng.entryOf faults c peer_id origin row inst =
                restoredEntry c.contributor_id row faults inst origin r.2 :=
              congrArg (RowEntry.mk c.contributor_id row false faults inst) hreport
            have hrestored : Restored origin eng.local_node.id
                (restoredEntry c.contributor_id row faults inst origin r.2) := by
              refine ⟨rfl, hv, hf, fun hg => ?_⟩
              by_contra hboth
              rw [not_or] at hboth
              refine hread ⟨hg, ?_, hboth.2⟩
              rw [getRow_isSome hc]
              exact Option.isSome_iff_ne_none.2 hboth.1
            rw [hentry, truthful_restoredEntry]
            exact accountable_restoredEntry hrestored hinto

/-! ## A whole bundle -/

theorem mem_reportRows {faults : Nat → RowFaults} {rows : List Dict} {n : Nat}
    (h : e ∈ (eng.reportRows faults c peer_id origin n rows inst).1) :
    ∃ f row before, e = eng.entryOf f c peer_id origin row before := by
  induction rows generalizing n inst with
  | nil => cases h
  | cons row rows ih =>
    rcases List.mem_cons.1 h with rfl | h
    · exact ⟨_, row, inst, rfl⟩
    · exact ih h

theorem length_reportRows (faults : Nat → RowFaults) (rows : List Dict) (n : Nat)
    (inst : Installation b) :
    (eng.reportRows faults c peer_id origin n rows inst).1.length = rows.length := by
  induction rows generalizing n inst with
  | nil => rfl
  | cons row rows ih => exact congrArg (· + 1) (ih _ _)

theorem truthful_of_mem_reportPayload (hc : Registered c) {faults : Nat → RowFaults}
    (h : e ∈ (eng.reportPayload faults c peer_id origin rows inst).1) :
    Truthful origin e ↔ Accountable origin eng.local_node.id e := by
  rcases List.mem_append.1 h with h | h
  · obtain ⟨row, _, rfl⟩ := List.mem_map.1 h
    exact iff_of_true (truthful_skip origin rfl)
      (accountable_of_not_restored fun hr => by cases hr.1)
  · obtain ⟨f, row, before, rfl⟩ := mem_reportRows h
    exact truthful_entryOf hc f peer_id origin row before

theorem length_reportPayload (faults : Nat → RowFaults) (rows : List Dict)
    (inst : Installation b) :
    (eng.reportPayload faults c peer_id origin rows inst).1.length = rows.length := by
  have hsplit := List.length_eq_length_filter_add
    (l := rows) (keepsRow c.contributor_id [eng.local_node.id] inst)
  rw [reportPayload, List.length_append, List.length_map, length_reportRows]
  omega

/-- The rows that a document carries. -/
def rowCount : JsonDoc → Nat
  | .array rows => rows.length
  | _ => 0

theorem length_of_mapM_ok {f : α → Except ε β} {xs : List α} {ys : List β}
    (h : xs.mapM f = .ok ys) : ys.length = xs.length := by
  have hmap : ys.map (fun _ => ()) = xs.map fun _ => () := map_of_mapM_ok h fun _ _ _ => rfl
  simpa only [List.length_map] using congrArg List.length hmap

/-- No element of a document that iterates as scalars has a `get`. -/
theorem dicts_of_scalars {f : α → Val} {items : List α}
    (h : (items.map fun a => JsonRow.scalar (f a)).mapM JsonRow.asDict = .ok rows) :
    rows = [] := by
  cases items with
  | nil =>
    cases h
    rfl
  | cons a items =>
    obtain ⟨_, _, hrow, _⟩ := mapM_cons_eq_ok.1 h
    cases hrow

theorem rowCount_of_dicts (h : JsonDoc.dicts doc = .ok rows) : rowCount doc = rows.length := by
  obtain ⟨items, hitems, hrows⟩ := bind_eq_ok.1 h
  cases doc with
  | array docs =>
    cases hitems
    exact (length_of_mapM_ok hrows).symm
  | object members =>
    cases hitems
    rw [dicts_of_scalars hrows]
    rfl
  | scalar v =>
    cases v with
    | str s =>
      cases hitems
      rw [dicts_of_scalars hrows]
      rfl
    | _ => cases hitems

/-- The rows that a bundle carries for the registered contributors. -/
def rowsFor (eng : MeshSyncEngine b) (payloads : List (String × JsonDoc)) : Nat :=
  (payloads.map fun payload =>
    if (eng.backup.contributors.find payload.1).isSome then rowCount payload.2 else 0).sum

def rowsCarried (eng : MeshSyncEngine b) (bundle : Tarball) : Nat :=
  match extractTarball bundle with
  | .error _ => 0
  | .ok (_, data) => eng.rowsFor data.rows

/-- Every document for a registered contributor is a list of objects, or empty. -/
def ListsRows (eng : MeshSyncEngine b) (payloads : List (String × JsonDoc)) : Prop :=
  ∀ payload ∈ payloads, (eng.backup.contributors.find payload.1).isSome = true →
    ∃ rows, payload.2.dicts = .ok rows

/-- The outcome of a bundle reports on each row that it carries. -/
theorem reportDocs_ok_iff (peer_id origin : String) (faults : String → Nat → RowFaults)
    (payloads : List (String × JsonDoc)) (inst : Installation b) :
    (∃ entries, (eng.reportDocs faults peer_id origin payloads inst).1 = .ok entries) ↔
      eng.ListsRows payloads := by
  induction payloads generalizing inst with
  | nil => exact ⟨fun _ _ hp => absurd hp List.not_mem_nil, fun _ => ⟨[], rfl⟩⟩
  | cons payload payloads ih =>
    rw [ListsRows, List.forall_mem_cons, reportDocs]
    cases hf : eng.backup.contributors.find payload.1 with
    | none =>
      rw [ih inst]
      exact ⟨fun h => ⟨fun hsome => (Bool.false_ne_true hsome).elim, h⟩, fun h => h.2⟩
    | some c =>
      cases hrows : payload.2.dicts with
      | error e =>
        refine ⟨fun ⟨_, h⟩ => (by cases h), fun h => ?_⟩
        obtain ⟨_, hok⟩ := h.1 rfl
        cases hok
      | ok rows =>
        have hrest := ih (eng.reportPayload (faults payload.1) c peer_id origin rows inst).2
        constructor
        · rintro ⟨entries, h⟩
          obtain ⟨rest, h, _⟩ := map_eq_ok.1 h
          exact ⟨fun _ => ⟨rows, rfl⟩, hrest.1 ⟨rest, h⟩⟩
        · rintro ⟨_, h⟩
          obtain ⟨rest, h⟩ := hrest.2 h
          exact ⟨_, map_eq_ok.2 ⟨rest, h, rfl⟩⟩

theorem reportDocs_ok {faults : String → Nat → RowFaults} {payloads : List (String × JsonDoc)}
    (hb : eng.backup = buildBackupService app_name app_version dir)
    (h : (eng.reportDocs faults peer_id origin payloads inst).1 = .ok entries) :
    entries.length = eng.rowsFor payloads ∧
      ∀ e ∈ entries, Truthful origin e ↔ Accountable origin eng.local_node.id e := by
  induction payloads generalizing inst entries with
  | nil =>
    cases h
    exact ⟨rfl, fun _ he => absurd he List.not_mem_nil⟩
  | cons payload payloads ih =>
    rw [reportDocs] at h
    rw [rowsFor, List.map_cons, List.sum_cons, ← rowsFor]
    cases hf : eng.backup.contributors.find payload.1 with
    | none =>
      rw [hf] at h
      obtain ⟨hlen, hall⟩ := ih h
      exact ⟨by rw [hlen]; exact (Nat.zero_add _).symm, hall⟩
    | some c =>
      rw [hf] at h
      cases hrows : payload.2.dicts with
      | error e =>
        rw [hrows] at h
        cases h
      | ok rows =>
        rw [hrows] at h
        obtain ⟨rest, hrest, rfl⟩ := map_eq_ok.1 h
        obtain ⟨hlen, hall⟩ := ih hrest
        have hc : Registered c := registered_of_find (hb ▸ hf)
        refine ⟨?_, fun e he => ?_⟩
        · rw [List.length_append, hlen, length_reportPayload, ← rowCount_of_dicts hrows]
          rfl
        · rcases List.mem_append.1 he with he | he
          · exact truthful_of_mem_reportPayload hc he
          · exact hall e he

end MeshSyncEngine

/-- Every row is counted once. -/
theorem counters_sum (entries : List (RowEntry b)) :
    (counters entries).1 + (counters entries).2.1 + (counters entries).2.2 = entries.length := by
  induction entries with
  | nil => rfl
  | cons e entries ih =>
    simp only [counters, List.countP_cons, List.length_cons] at ih ⊢
    cases e.report.count <;> simp <;> omega

/-! ## Per-row accounting -/

/-- `_apply_bundle` returns three counts that add up to the rows which the bundle carries for the
registered contributors, and the count of every row is truthful. -/
def Accounted (eng : MeshSyncEngine b) (faults : String → Nat → RowFaults) (bundle : Tarball)
    (peer_id : String) (origin_node_id : Option String) (inst : Installation b) : Prop :=
  ∃ entries, (eng.reportTarball faults bundle peer_id origin_node_id inst).1 = .ok entries ∧
    (∀ e ∈ entries, Truthful (originOf origin_node_id) e) ∧
    (counters entries).1 + (counters entries).2.1 + (counters entries).2.2 =
      eng.rowsCarried bundle

/-- The bundle lists rows for the registered contributors, and every row is accountable in the
state that its turn finds. -/
def AccountableBundle (eng : MeshSyncEngine b) (faults : String → Nat → RowFaults)
    (bundle : Tarball) (peer_id : String) (origin_node_id : Option String)
    (inst : Installation b) : Prop :=
  (∀ manifest docs, MeshSyncEngine.extractTarball bundle = .ok (manifest, docs) →
      eng.ListsRows docs.rows) ∧
    ∀ entries, (eng.reportTarball faults bundle peer_id origin_node_id inst).1 = .ok entries →
      ∀ e ∈ entries, Accountable (originOf origin_node_id) eng.local_node.id e

section

/-- A row of the users' payload whose tag names neither of its two tables. -/
def groupRow : Dict := [("_table", .str "groups"), ("id", .str "g1")]

def groupBundle : Tarball :=
  (buildTarball ⟨1, .platform, none, newYear, "app", "1.0", []⟩
    [("users", { rows := [groupRow] })]).tarball

def emptyInstallation : Installation .sqlite := ⟨noData, ∅, ∅, [], ∅⟩

end

/-! ## Without failing calls -/

namespace MeshSyncEngine

theorem reportRestore_faultless (c : Contributor b) (origin : String) (row : Dict)
    (inst : Installation b) :
    (reportRestore {} c origin row inst).count = (restoreRow c origin row inst).1.count ∧
      (reportRestore {} c origin row inst).inst = (restoreRow c origin row inst).2 := by
  rw [reportRestore, restoreRow]
  cases c.restore .platform (row.get "tenant_id") (.ofRows [row]) [] inst.db with
  | mk r db => cases r with
    | error e => exact ⟨rfl, rfl⟩
    | ok n => exact ⟨rfl, rfl⟩

theorem reportRow_faultless (eng : MeshSyncEngine b) (c : Contributor b) (peer_id origin : String)
    (row : Dict) (inst : Installation b) :
    (eng.reportRow {} c peer_id origin row inst).count =
        (eng.applyRow c peer_id origin row inst).1.count ∧
      (eng.reportRow {} c peer_id origin row inst).inst =
        (eng.applyRow c peer_id origin row inst).2 := by
  have hrestore := reportRestore_faultless c origin row inst
  simp only [reportRow, applyRow, Bool.false_eq_true, false_and, if_false]
  cases lwwRemoteWins (parseTs (row.get "updated_at"))
      ((localRow c row inst).bind fun r => parseTs (r.get "updated_at")) origin
      eng.local_node.id with
  | error e => exact ⟨rfl, rfl⟩
  | ok wins =>
    cases wins with
    | true => exact hrestore
    | false =>
      simp only
      split
      · exact ⟨rfl, rfl⟩
      · exact hrestore

theorem reportRows_faultless (eng : MeshSyncEngine b) (c : Contributor b)
    (peer_id origin : String) (rows : List Dict) (n : Nat) (inst : Installation b) :
    (eng.reportRows (fun _ => {}) c peer_id origin n rows inst).1.map RowEntry.line =
        (eng.applyContributorRows c peer_id origin rows inst).1.map
          (fun e => (e.1, e.2.1, e.2.2.count)) ∧
      (eng.reportRows (fun _ => {}) c peer_id origin n rows inst).2 =
        (eng.applyContributorRows c peer_id origin rows inst).2 := by
  induction rows generalizing n inst with
  | nil => exact ⟨rfl, rfl⟩
  | cons row rows ih =>
    obtain ⟨hcount, hinst⟩ := reportRow_faultless eng c peer_id origin row inst
    obtain ⟨hlines, hlast⟩ := ih (n + 1) (eng.applyRow c peer_id origin row inst).2
    rw [reportRows, applyContributorRows]
    simp only [entryOf, hinst, List.map_cons, hlines, hlast, RowEntry.line, hcount, and_self]

theorem reportPayload_faultless {eng : MeshSyncEngine b}
    (hf : eng.backup.contributors.find cid = some c) (peer_id origin : String)
    (rows : List Dict) (inst : Installation b) :
    (eng.reportPayload (fun _ => {}) c peer_id origin rows inst).1.map RowEntry.line =
        (eng.applyPayload peer_id origin (cid, rows) inst).1.map
          (fun e => (e.1, e.2.1, e.2.2.count)) ∧
      (eng.reportPayload (fun _ => {}) c peer_id origin rows inst).2 =
        (eng.applyPayload peer_id origin (cid, rows) inst).2 := by
  obtain rfl : c.contributor_id = cid := KeyedTable.key_of_find hf
  obtain ⟨hlines, hlast⟩ := reportRows_faultless eng c peer_id origin
    (rows.filter (keepsRow c.contributor_id [eng.local_node.id] inst)) 0 inst
  rw [applyPayload, hf, reportPayload]
  refine ⟨?_, hlast⟩
  rw [List.map_append, List.map_append, hlines, List.map_map, List.map_map]
  rfl

theorem reportDocs_faultless (eng : MeshSyncEngine b) (peer_id origin : String)
    (payloads : List (String × JsonDoc)) (inst : Installation b) :
    (eng.reportDocs (fun _ _ => {}) peer_id origin payloads inst).1.map
        (List.map RowEntry.line) =
        (eng.applyDocs peer_id origin payloads inst).1.map
          (List.map fun e => (e.1, e.2.1, e.2.2.count)) ∧
      (eng.reportDocs (fun _ _ => {}) peer_id origin payloads inst).2 =
        (eng.applyDocs peer_id origin payloads inst).2 := by
  induction payloads generalizing inst with
  | nil => exact ⟨rfl, rfl⟩
  | cons payload payloads ih =>
    rw [reportDocs, applyDocs, applyDoc]
    cases hf : eng.backup.contributors.find payload.1 with
    | none =>
      obtain ⟨hlines, hlast⟩ := ih inst
      refine ⟨?_, hlast⟩
      simp only [hlines]
      cases (eng.applyDocs peer_id origin payloads inst).1 with
      | error e => rfl
      | ok log => rfl
    | some c =>
      cases hrows : payload.2.dicts with
      | error e => exact ⟨rfl, rfl⟩
      | ok rows =>
        obtain ⟨hlines, hlast⟩ := reportPayload_faultless hf peer_id origin rows inst
        obtain ⟨hrest, hend⟩ := ih (eng.applyPayload peer_id origin (payload.1, rows) inst).2
        simp only [hlast]
        refine ⟨?_, hend⟩
        generalize (eng.reportDocs (fun _ _ => {}) peer_id origin payloads
          (eng.applyPayload peer_id origin (payload.1, rows) inst).2).1 = x at hrest ⊢
        generalize (eng.applyDocs peer_id origin payloads
          (eng.applyPayload peer_id origin (payload.1, rows) inst).2).1 = y at hrest ⊢
        cases x with
        | error e => cases y with
          | error e' =>
            cases hrest
            rfl
          | ok log => cases hrest
        | ok entries => cases y with
          | error e' => cases hrest
          | ok log =>
            have hrest := Except.ok.inj hrest
            simp only [Except.map, List.map_append, hlines, hrest]

/-- Where no call fails, the reports are what `_apply_bundle` does. -/
theorem reportTarball_faultless (eng : MeshSyncEngine b) (bundle : Tarball) (peer_id : String)
    (origin_node_id : Option String) (inst : Installation b) :
    (eng.reportTarball (fun _ _ => {}) bundle peer_id origin_node_id inst).1.map
        (List.map RowEntry.line) =
        (eng.applyTarball bundle peer_id origin_node_id inst).1.map
          (List.map fun e => (e.1, e.2.1, e.2.2.count)) ∧
      (eng.reportTarball (fun _ _ => {}) bundle peer_id origin_node_id inst).2 =
        (eng.applyTarball bundle peer_id origin_node_id inst).2 := by
  rw [reportTarball, applyTarball]
  cases extractTarball bundle with
  | error e => exact ⟨rfl, rfl⟩
  | ok r => exact reportDocs_faultless eng peer_id _ r.2.rows inst

end MeshSyncEngine

end ScottyCore
