import ScottyCore.Core.Stored
import ScottyCore.Sync.Extraction
import ScottyCore.Sync.Stale

namespace ScottyCore
open Python
set_option autoImplicit true

variable {b : Backend} {m : Model}

/-! ## Two applications of one bundle -/

/-- Two installations with the same rows, the same recorded origins, their times aside, and the
same conflicts. -/
structure Same (s t : Installation b) : Prop where
  tables : s.db.table = t.db.table
  origins : ∀ table_name row_id,
    (getRowOrigin table_name row_id s).map SyncRowOrigin.origin_node_id =
      (getRowOrigin table_name row_id t).map SyncRowOrigin.origin_node_id
  conflicts : s.sync_conflicts = t.sync_conflicts

theorem Same.trans {s t u : Installation b} (h : Same s t) (h' : Same t u) : Same s u :=
  ⟨h.tables.trans h'.tables, fun table_name row_id =>
    (h.origins table_name row_id).trans (h'.origins table_name row_id),
    h.conflicts.trans h'.conflicts⟩

/-- The installation when the clock reads another time. -/
def Installation.at (inst : Installation b) (now : { d : DateTime // b.native d = true }) :
    Installation b :=
  { inst with db := { inst.db with now := now } }

/-- Applying a bundle once more, at whatever time, leaves what applying it once left. -/
def Idempotent (eng : MeshSyncEngine b) (bundle : Tarball) (peer_id : String)
    (origin_node_id : Option String) (inst : Installation b) : Prop :=
  ∀ now, Same
    (eng.applyTarball bundle peer_id origin_node_id
      ((eng.applyTarball bundle peer_id origin_node_id inst).2.at now)).2
    (eng.applyTarball bundle peer_id origin_node_id inst).2

/-! ## The turns of a bundle's rows -/

/-- A row whose turn has come, with the installation that it finds. -/
structure Turn (b : Backend) where
  contributor_id : String
  row : Dict
  before : Installation b

namespace MeshSyncEngine

def rowTurns (eng : MeshSyncEngine b) (c : Contributor b) (peer_id origin_node_id : String) :
    List Dict → Installation b → List (Turn b)
  | [], _ => []
  | row :: rows, inst =>
    ⟨c.contributor_id, row, inst⟩ ::
      eng.rowTurns c peer_id origin_node_id rows (eng.applyRow c peer_id origin_node_id row inst).2

/-- The rows that the origin filter keeps, up to the first document that raises. -/
def docTurns (eng : MeshSyncEngine b) (peer_id origin_node_id : String) :
    List (String × JsonDoc) → Installation b → List (Turn b)
  | [], _ => []
  | payload :: payloads, inst =>
    match eng.backup.contributors.find payload.1 with
    | none => eng.docTurns peer_id origin_node_id payloads inst
    | some c =>
      match payload.2.dicts with
      | .error _ => []
      | .ok rows =>
        eng.rowTurns c peer_id origin_node_id
            (filterRowsByOrigin rows payload.1 [eng.local_node.id] inst) inst ++
          eng.docTurns peer_id origin_node_id payloads
            (eng.applyContributorRows c peer_id origin_node_id
              (filterRowsByOrigin rows payload.1 [eng.local_node.id] inst) inst).2

def turns (eng : MeshSyncEngine b) (bundle : Tarball) (peer_id : String)
    (origin_node_id : Option String) (inst : Installation b) : List (Turn b) :=
  match extractTarball bundle with
  | .error _ => []
  | .ok (_, data) => eng.docTurns peer_id (originOf origin_node_id) data.rows inst

end MeshSyncEngine

/-! ## Rows that can be applied again -/

/-- Merging a row fails for what its own key and another one hold, whatever the other rows are. -/
def Fails (m : Model) (row : Dict) (key : Val) (db : Database b) : Prop :=
  ∀ db' : Database b, db'.find m (row.get "id") = db.find m (row.get "id") →
    db'.find m key = db.find m key → ∃ e, mergeRow m row db' = .error e

/-- Under the key lies what keeps a row from being merged that does not fail for itself. -/
def Blocks (m : Model) (row : Dict) (key : Val) (db : Database b) : Prop :=
  Fails m row key db ∧ ¬ Fails m row (row.get "id") db

/-- LWW will compare the row, once stored, with itself. -/
def ComparesAgain (b : Backend) (cid : String) (m : Model) (row : Dict) : Prop :=
  readModel cid = some m ∧ rowId row ≠ "" ∧
    ∃ d, parseTs (row.get "updated_at") = some d ∧ d.isNaive = decide (b = .sqlite)

/-- What merging the row stores is the row, and it holds its own against the row. -/
structure Lasts (origin loc cid : String) (m : Model) (row : Dict) (db : Database b) : Prop where
  untouched : ¬ Touches m row db
  uniform : ∀ given, hydrateRow m row = .ok given → Uniform b m given
  tie : ComparesAgain b cid m row → loc ≤ origin

/-- LWW lets the row in, and a table is to have it. -/
def LetIn (origin loc : String) (t : Turn b) (m : Model) : Prop :=
  verdict t.contributor_id t.row origin loc t.before.db = .ok true ∧
    route t.contributor_id t.row = .ok (some m)

/-- A row at its turn neither loses to a stored row nor, where it is restored, will be written
differently or lose when it comes again: merging it fails for what two keys hold, or it is merged
under its id and either counts as the receiver's own from then on or lasts. -/
structure Calm (origin loc : String) (t : Turn b) : Prop where
  wins : verdict t.contributor_id t.row origin loc t.before.db ≠ .ok false
  settles : ∀ m, LetIn origin loc t m →
    (∃ key, Fails m t.row key t.before.db) ∨
      (∃ db, mergeRow m t.row t.before.db = .ok db) ∧ t.row.get "id" ≠ .none ∧
        (origin = loc ∧ rowId t.row ≠ "" ∨ Lasts origin loc t.contributor_id m t.row t.before.db)

/-- Where a row looks before it is stored: for the stored row that LWW compares, for the stored row
that it merges into, and for a row that keeps it from being merged. -/
inductive LooksAt (cid : String) (row : Dict) (db : Database b) : Model → Val → Prop where
  | compared {m : Model} :
    readModel cid = some m → rowId row ≠ "" → LooksAt cid row db m (.str (rowId row))
  | merged {m : Model} : route cid row = .ok (some m) → LooksAt cid row db m (row.get "id")
  | blocked {m : Model} :
    route cid row = .ok (some m) → Blocks m row key db → LooksAt cid row db m key

/-- A later row of the bundle is not stored where the row looks, unless it gives the same cells. -/
def LeavesAlone (origin loc : String) (t u : Turn b) : Prop :=
  ∀ m db, LetIn origin loc u m → mergeRow m u.row u.before.db = .ok db →
    ¬ LooksAt t.contributor_id t.row u.before.db m (u.row.get "id") ∨
      (route t.contributor_id t.row = .ok (some m) ∧
        ∀ c ∈ m.columns, u.row.lookup c.name = t.row.lookup c.name)

/-! ## What LWW sees -/

theorem lww_of_incomparable {d e : DateTime} (hn : e.isNaive ≠ d.isNaive) :
    ∃ exc, lwwRemoteWins (some d) (some e) origin loc = .error exc := by
  simp only [lwwRemoteWins, DateTime.lt, hn, if_false]
  exact ⟨_, rfl⟩

theorem lww_error_iff : (∃ e, lwwRemoteWins r l origin loc = .error e) ↔
    ∃ d e, r = some d ∧ l = some e ∧ e.isNaive ≠ d.isNaive := by
  constructor
  · rintro ⟨exc, h⟩
    cases r with
    | none => cases h
    | some d =>
      cases l with
      | none => cases h
      | some e =>
        refine ⟨d, e, rfl, rfl, fun hn => ?_⟩
        rw [lww_of_comparable hn] at h
        cases h
  · rintro ⟨d, e, rfl, rfl, hn⟩
    exact lww_of_incomparable hn

/-- What loses is comparable, and older or a tie that the sender's id does not win. -/
theorem lww_false (h : lwwRemoteWins r l origin loc = .ok false) :
    ∃ d e, r = some d ∧ l = some e ∧ e.isNaive = d.isNaive ∧
      (d.instant = e.instant → ¬ loc ≤ origin) := by
  cases r with
  | none => cases h
  | some d =>
    cases l with
    | none => cases h
    | some e =>
      by_cases hn : e.isNaive = d.isNaive
      · rw [lww_of_comparable hn, Except.ok.injEq, decide_eq_false_iff_not, not_or, not_and] at h
        exact ⟨d, e, rfl, rfl, hn, fun he => h.2 he.symm⟩
      · obtain ⟨exc, he⟩ := lww_of_incomparable hn
        rw [he] at h
        cases h

theorem localStamp_eq_some {db : Database b} (h : localStamp cid row db = some e) :
    ∃ m l, readModel cid = some m ∧ rowId row ≠ "" ∧ db.find m (.str (rowId row)) = some l ∧
      l.updatedAt = some e := by
  rw [localStamp] at h
  cases hm : readModel cid with
  | none =>
    rw [hm] at h
    cases h
  | some m =>
    rw [hm] at h
    simp only at h
    split at h
    · cases h
    · rename_i hid
      obtain ⟨l, hl, he⟩ := Option.bind_eq_some_iff.1 h
      exact ⟨m, l, rfl, hid, hl, he⟩

theorem localStamp_congr {db db' : Database b}
    (h : ∀ m, readModel cid = some m → rowId row ≠ "" →
      db'.find m (.str (rowId row)) = db.find m (.str (rowId row))) :
    localStamp cid row db' = localStamp cid row db := by
  rw [localStamp, localStamp]
  cases hm : readModel cid with
  | none => rfl
  | some m =>
    simp only
    split
    · rfl
    · rename_i hid
      rw [h m hm hid]

theorem native_of_localStamp {db : Database b} (h : localStamp cid row db = some e) :
    e.isNaive = decide (b = .sqlite) := by
  obtain ⟨m, l, hm, _, _, he⟩ := localStamp_eq_some h
  obtain ⟨d, hd, _, hn⟩ := l.updatedAt_of_timestamped (readModel_timestamped hm)
  cases hd.symm.trans he
  exact Backend.isNaive_of_native hn

/-- A row that cannot be compared never can, while the stored row is there. -/
theorem verdict_error_persists {db db' : Database b}
    (h : verdict cid row origin loc db = .error e)
    (hfind : ∀ m l, db.find m (.str (rowId row)) = some l →
      ∃ l', db'.find m (.str (rowId row)) = some l') :
    ∃ e', verdict cid row origin loc db' = .error e' := by
  obtain ⟨d, s, hd, hs, hne⟩ := lww_error_iff.1 ⟨e, h⟩
  obtain ⟨m, l, hm, hid, hl, _⟩ := localStamp_eq_some hs
  obtain ⟨l', hl'⟩ := hfind m l hl
  obtain ⟨s', hs', _, hn⟩ := l'.updatedAt_of_timestamped (readModel_timestamped hm)
  apply lww_error_iff.2
  refine ⟨d, s', hd, ?_, ?_⟩
  · rw [localStamp, hm]
    simp only [if_neg hid]
    rw [hl']
    exact hs'
  · rw [Backend.isNaive_of_native hn, ← native_of_localStamp hs]
    exact hne

/-! ## Rows that are still -/

theorem Fails.error {db : Database b} (h : Fails m row key db) : ∃ e, mergeRow m row db = .error e :=
  h db rfl rfl

theorem Fails.transfer {db db' : Database b} (h : Fails m row key db)
    (hid : db'.find m (row.get "id") = db.find m (row.get "id"))
    (hkey : db'.find m key = db.find m key) : Fails m row key db' := by
  intro db'' hid' hkey'
  exact h db'' (hid'.trans hid) (hkey'.trans hkey)

/-- A row that fails still fails where nothing is stored that it looks at. -/
theorem Fails.of_apart {db db' : Database b} (h : Fails m row key db)
    (hroute : route cid row = .ok (some m))
    (hfind : ∀ m' key', LooksAt cid row db m' key' → db'.find m' key' = db.find m' key') :
    ∃ key, Fails m row key db' := by
  have hid := hfind m _ (.merged hroute)
  by_cases hself : Fails m row (row.get "id") db
  · exact ⟨_, hself.transfer hid hid⟩
  · exact ⟨key, h.transfer hid (hfind m key (.blocked hroute ⟨h, hself⟩))⟩

theorem find_of_table {s t : Installation b} (h : s.db.table = t.db.table) (m : Model)
    (key : Val) : s.db.find m key = t.db.find m key := by
  rw [Database.find, Database.find, h]

/-- A row that does nothing more: it does not lose, and where it wins it fails or changes no row and
has its origin recorded. -/
structure Still (origin loc cid : String) (row : Dict) (s : Installation b) : Prop where
  wins : verdict cid row origin loc s.db ≠ .ok false
  quiet : verdict cid row origin loc s.db = .ok true → ∀ target, route cid row = .ok target →
    (∃ m, target = some m ∧ ∃ key, Fails m row key s.db) ∨
      ((getRowOrigin cid (rowId row) s).map SyncRowOrigin.origin_node_id = some origin ∧
        ∀ m, target = some m → Inert m row (s.db.find m (row.get "id")))

theorem verdict_congr {db db' : Database b}
    (h : localStamp cid row db' = localStamp cid row db) :
    verdict cid row origin loc db' = verdict cid row origin loc db := by
  rw [verdict, verdict, h]

/-- A row stays still while nothing is stored where it looks and its origin stays. -/
theorem Still.transfer {s t : Installation b} (h : Still origin loc cid row t)
    (hfind : ∀ m key, LooksAt cid row t.db m key → s.db.find m key = t.db.find m key)
    (horigin : (getRowOrigin cid (rowId row) t).map SyncRowOrigin.origin_node_id = some origin →
      (getRowOrigin cid (rowId row) s).map SyncRowOrigin.origin_node_id = some origin) :
    Still origin loc cid row s := by
  have hv : verdict cid row origin loc s.db = verdict cid row origin loc t.db :=
    verdict_congr (localStamp_congr fun m hm hid => hfind m _ (.compared hm hid))
  constructor
  · rw [hv]
    exact h.wins
  · intro hwins target hroute
    rw [hv] at hwins
    rcases h.quiet hwins target hroute with ⟨m, rfl, key, hfails⟩ | ⟨hrecorded, hinert⟩
    · exact .inl ⟨m, rfl, hfails.of_apart hroute hfind⟩
    · refine .inr ⟨horigin hrecorded, ?_⟩
      rintro m rfl
      rw [hfind m _ (.merged hroute)]
      exact hinert m rfl

theorem origin_recordRowOrigin (cid rid cid' rid' origin : String) (s : Installation b) :
    (getRowOrigin cid rid (recordRowOrigin cid' rid' origin s)).map
        SyncRowOrigin.origin_node_id =
      if (cid, rid) = (cid', rid') then some origin
      else (getRowOrigin cid rid s).map SyncRowOrigin.origin_node_id := by
  rw [getRowOrigin, recordRowOrigin, KeyedTable.find_upsert]
  split
  · rfl
  · rfl

namespace MeshSyncEngine

variable {eng : MeshSyncEngine b} {c : Contributor b} {s : Installation b}

/-- What applying a row does to the recorded origins. -/
theorem origin_applyRow (hc : Registered c) (peer_id origin cid rid : String) (row : Dict)
    (s : Installation b) :
    (getRowOrigin cid rid (eng.applyRow c peer_id origin row s).2).map
        SyncRowOrigin.origin_node_id =
        (getRowOrigin cid rid s).map SyncRowOrigin.origin_node_id ∨
      (cid, rid) = (c.contributor_id, rowId row) ∧
        (getRowOrigin cid rid (eng.applyRow c peer_id origin row s).2).map
          SyncRowOrigin.origin_node_id = some origin := by
  rcases applyRow_cases eng hc peer_id origin row s with
    ⟨e, _, h⟩ | ⟨_, h⟩ | ⟨_, ⟨e, h⟩ | ⟨_, h⟩ | ⟨_, _, _, _, h⟩⟩
  · exact .inl (by rw [h])
  · exact .inl (by rw [h]; rfl)
  · exact .inl (by rw [h])
  · rw [h, origin_recordRowOrigin]
    split
    · rename_i he
      exact .inr ⟨he, rfl⟩
    · exact .inl rfl
  · rw [h, origin_recordRowOrigin]
    split
    · rename_i he
      exact .inr ⟨he, rfl⟩
    · exact .inl rfl

theorem recorded_persists (hc : Registered c) (peer_id : String) (row : Dict)
    (h : (getRowOrigin cid rid s).map SyncRowOrigin.origin_node_id = some origin) :
    (getRowOrigin cid rid (eng.applyRow c peer_id origin row s).2).map
      SyncRowOrigin.origin_node_id = some origin := by
  rcases origin_applyRow hc peer_id origin cid rid row s with he | ⟨_, he⟩
  · rw [he, h]
  · exact he

/-- A still row that comes again changes nothing. -/
theorem same_of_still (hc : Registered c) (h : Still origin eng.local_node.id c.contributor_id row s)
    (peer_id : String) : Same (eng.applyRow c peer_id origin row s).2 s := by
  have hrecord : (getRowOrigin c.contributor_id (rowId row) s).map SyncRowOrigin.origin_node_id =
      some origin → Same (recordRowOrigin c.contributor_id (rowId row) origin s) s := by
    intro hrecorded
    refine ⟨rfl, fun cid rid => ?_, rfl⟩
    rw [origin_recordRowOrigin]
    split
    · rename_i he
      obtain ⟨rfl, rfl⟩ := Prod.mk.inj he
      exact hrecorded.symm
    · rfl
  rcases applyRow_cases eng hc peer_id origin row s with
    ⟨e, _, hr⟩ | ⟨hv, hr⟩ | ⟨hv, ⟨e, hr⟩ | ⟨hroute, hr⟩ | ⟨m, db, hroute, hmerge, hr⟩⟩
  · rw [hr]
    exact ⟨rfl, fun _ _ => rfl, rfl⟩
  · exact (h.wins hv).elim
  · rw [hr]
    exact ⟨rfl, fun _ _ => rfl, rfl⟩
  · rw [hr]
    rcases h.quiet hv _ hroute with ⟨m, hm, _⟩ | ⟨hrecorded, _⟩
    · cases hm
    · exact hrecord hrecorded
  · rw [hr]
    rcases h.quiet hv _ hroute with ⟨m', hm, key, hfails⟩ | ⟨hrecorded, hinert⟩
    · cases hm
      obtain ⟨e, he⟩ := hfails.error
      cases he.symm.trans hmerge
    · rw [hinert m rfl s.db db rfl hmerge]
      exact hrecord hrecorded

/-- A still row stays still when a calm row that leaves it alone has its turn. -/
theorem still_persists (hc : Registered c) {t : Turn b} (peer_id : String)
    (h : Still origin eng.local_node.id t.contributor_id t.row s)
    (hu : Calm origin eng.local_node.id ⟨c.contributor_id, row, s⟩)
    (halone : LeavesAlone origin eng.local_node.id t ⟨c.contributor_id, row, s⟩) :
    Still origin eng.local_node.id t.contributor_id t.row
      (eng.applyRow c peer_id origin row s).2 := by
  have horigin : (getRowOrigin t.contributor_id (rowId t.row) s).map
        SyncRowOrigin.origin_node_id = some origin →
      (getRowOrigin t.contributor_id (rowId t.row) (eng.applyRow c peer_id origin row s).2).map
        SyncRowOrigin.origin_node_id = some origin := recorded_persists hc peer_id row
  rcases applyRow_cases eng hc peer_id origin row s with
    ⟨e, _, hr⟩ | ⟨hv, hr⟩ | ⟨hv, ⟨e, hr⟩ | ⟨hroute, hr⟩ | ⟨m, db, hroute, hmerge, hr⟩⟩
  · rw [hr]
    exact h
  · exact (hu.wins hv).elim
  · rw [hr]
    exact h
  · rw [hr] at horigin ⊢
    exact h.transfer (fun _ _ _ => rfl) horigin
  · have hid : row.get "id" ≠ .none := by
      rcases hu.settles m ⟨hv, hroute⟩ with ⟨key, hfails⟩ | ⟨_, hid, _⟩
      · obtain ⟨e, he⟩ := hfails.error
        cases he.symm.trans hmerge
      · exact hid
    obtain ⟨⟨l, hl⟩, hframe⟩ := find_mergeRow hmerge hid
    rw [hr] at horigin ⊢
    rcases halone m db ⟨hv, hroute⟩ hmerge with hapart | ⟨hroute', hcells⟩
    · refine h.transfer (fun m' key hlooks => hframe m' key ?_) horigin
      by_contra hboth
      rw [not_or, not_not, not_not] at hboth
      obtain ⟨rfl, rfl⟩ := hboth
      exact hapart hlooks
    · have hmerge' : mergeRow m t.row s.db = .ok db :=
        (mergeRow_congr hcells s.db).symm.trans hmerge
      cases hvt : verdict t.contributor_id t.row origin eng.local_node.id s.db with
      | error e =>
        obtain ⟨e', he'⟩ := verdict_error_persists hvt fun m' l' hl' => by
          by_cases hslot : m' = m ∧ Val.str (rowId t.row) = row.get "id"
          · obtain ⟨rfl, hkey⟩ := hslot
            exact ⟨l, hkey ▸ hl⟩
          · exact ⟨l', (hframe m' _ (not_and_or.1 hslot)).trans hl'⟩
        constructor
        · intro hfalse
          cases he'.symm.trans hfalse
        · intro htrue
          cases he'.symm.trans htrue
      | ok wins =>
        cases wins with
        | false => exact (h.wins hvt).elim
        | true =>
          rcases h.quiet hvt _ hroute' with ⟨m', hm', key, hfails⟩ | ⟨hrecorded, hinert⟩
          · cases hm'
            obtain ⟨e, he⟩ := hfails.error
            cases he.symm.trans hmerge'
          · obtain rfl := hinert m rfl s.db db rfl hmerge'
            exact h.transfer (fun _ _ _ => rfl) horigin

theorem given_stamp (hg : hydrateRow m row = .ok given) (ht : m.timestamped = true)
    (h : parseTs (row.get "updated_at") = some d) :
    given.lookup "updated_at" = some (.datetime d) := by
  rcases lookup_mapColumns hg m.columnNames_nodup (Model.updated_at_mem ht) with
    ⟨hw, _⟩ | ⟨w, v, hw, hf, hv⟩
  · rw [Dict.get, show List.lookup "updated_at" row = none from hw] at h
    cases h
  · rw [Dict.get, show List.lookup "updated_at" row = some w from hw] at h
    refine hv.trans (congrArg some ?_)
    cases w with
    | datetime d' =>
      cases h
      exact (Except.ok.inj hf).symm
    | str s =>
      rw [hydrateCell, if_pos (show Column.updatedAt.type = .dateTime from rfl)] at hf
      change (fromisoformat (replaceChar 'Z' "+00:00" s)).toOption = some d at h
      cases hs : fromisoformat (replaceChar 'Z' "+00:00" s) with
      | error e =>
        rw [hs] at h
        cases h
      | ok d' =>
        rw [hs] at h hf
        cases h
        exact (Except.ok.inj hf).symm
    | _ => cases h

/-- A row that lasts does not lose to itself. -/
theorem not_lost_again {db db' : Database b} (hwins : verdict cid row origin loc db = .ok true)
    (hmerge : mergeRow m row db = .ok db') (hid : row.get "id" ≠ .none)
    (hlasts : Lasts origin loc cid m row db) : verdict cid row origin loc db' ≠ .ok false := by
  intro hfalse
  obtain ⟨d, e, hd, he, hn, htie⟩ := lww_false hfalse
  obtain ⟨m', l, hm', hrid, hl, hstamp⟩ := localStamp_eq_some he
  by_cases hslot : m' = m ∧ Val.str (rowId row) = row.get "id"
  · obtain ⟨rfl, hkey⟩ := hslot
    have ht := readModel_timestamped hm'
    obtain ⟨given, hg, _⟩ := mergeRow_inv hmerge
    obtain ⟨r, hr, hgives, _⟩ :=
      inert_of_mergeRow hmerge hid hg hlasts.untouched (hlasts.uniform given hg)
    obtain rfl : r = l := Option.some.inj (hr.symm.trans (hkey ▸ hl))
    obtain ⟨e', he', hget, hnative⟩ := r.updatedAt_of_timestamped ht
    cases he'.symm.trans hstamp
    have hkind : d.isNaive = decide (b = .sqlite) := hn.symm.trans (Backend.isNaive_of_native hnative)
    have hcell := hgives .updatedAt (Model.updated_at_mem ht) _ (given_stamp hg ht hd)
    have heq : Val.eq (.datetime d) (.datetime e) = true := by
      rw [← hget]
      rcases hcell with (heq | hbind) | ⟨hnone, _⟩
      · exact heq
      · exact eq_of_bindCell hbind fun hforeign => hforeign hkind
      · cases hnone
    exact htie (of_decide_eq_true heq).2 (hlasts.tie ⟨hm', hrid, d, hd, hkind⟩)
  · have hstamp : localStamp cid row db' = localStamp cid row db := by
      apply localStamp_congr
      intro m'' hread _
      cases hm'.symm.trans hread
      exact (find_mergeRow hmerge hid).2 m' _ (not_and_or.1 hslot)
    rw [verdict_congr hstamp, hwins] at hfalse
    cases hfalse

/-- After its turn a calm row counts as the receiver's own or is still. -/
theorem still_of_calm (hc : Registered c) (peer_id : String)
    (h : Calm origin eng.local_node.id ⟨c.contributor_id, row, s⟩) :
    (origin = eng.local_node.id ∧ rowId row ≠ "" ∧
        (getRowOrigin c.contributor_id (rowId row)
          (eng.applyRow c peer_id origin row s).2).map SyncRowOrigin.origin_node_id =
            some origin) ∨
      Still origin eng.local_node.id c.contributor_id row
        (eng.applyRow c peer_id origin row s).2 := by
  rw [applyRow_eq hc]
  cases hv : verdict c.contributor_id row origin eng.local_node.id s.db with
  | error e =>
    right
    constructor
    · intro hfalse
      cases hv.symm.trans hfalse
    · intro htrue
      cases hv.symm.trans htrue
  | ok wins =>
    cases wins with
    | false => exact (h.wins hv).elim
    | true =>
      have hrecorded : ∀ db : Database b, (getRowOrigin c.contributor_id (rowId row)
          (recordRowOrigin c.contributor_id (rowId row) origin { s with db := db })).map
            SyncRowOrigin.origin_node_id = some origin := by
        intro db
        rw [origin_recordRowOrigin, if_pos rfl]
      simp only [restoreRow_eq hc]
      cases hroute : route c.contributor_id row with
      | error e =>
        right
        constructor
        · intro hfalse
          cases hv.symm.trans hfalse
        · intro _ target htarget
          cases hroute.symm.trans htarget
      | ok target =>
        cases target with
        | none =>
          right
          constructor
          · intro hfalse
            cases hv.symm.trans hfalse
          · intro _ target htarget
            cases hroute.symm.trans htarget
            exact .inr ⟨hrecorded s.db, nofun⟩
        | some m =>
          rcases h.settles m ⟨hv, hroute⟩ with ⟨key, hfails⟩ | ⟨⟨db, hmerge⟩, hid, hown | hlasts⟩
          · obtain ⟨e, he⟩ := hfails.error
            right
            simp only [Except.bind, restoreInto, he, Except.map]
            constructor
            · intro hfalse
              cases hv.symm.trans hfalse
            · intro _ target htarget
              cases hroute.symm.trans htarget
              exact .inl ⟨m, rfl, key, hfails⟩
          · simp only [Except.bind, restoreInto, hmerge, Except.map]
            exact .inl ⟨hown.1, hown.2, hrecorded db⟩
          · right
            simp only [Except.bind, restoreInto, hmerge, Except.map]
            constructor
            · exact not_lost_again hv hmerge hid hlasts
            · intro _ target htarget
              cases hroute.symm.trans htarget
              refine .inr ⟨hrecorded db, ?_⟩
              rintro _ ⟨⟩
              obtain ⟨given, hg, _⟩ := mergeRow_inv hmerge
              obtain ⟨r, hr, _, hinert⟩ :=
                inert_of_mergeRow hmerge hid hg hlasts.untouched (hlasts.uniform given hg)
              exact hr ▸ hinert

/-! ## The first application -/

/-- A row that does nothing more in a bundle from `origin`: the filter drops it as the receiver's
own, or it is still. -/
def PassedOver (eng : MeshSyncEngine b) (origin cid : String) (row : Dict) (s : Installation b) :
    Prop :=
  (origin = eng.local_node.id ∧ rowId row ≠ "" ∧
      (getRowOrigin cid (rowId row) s).map SyncRowOrigin.origin_node_id = some origin) ∨
    Still origin eng.local_node.id cid row s

theorem passedOver_persists (hc : Registered c) {t : Turn b} (peer_id : String)
    (h : PassedOver eng origin t.contributor_id t.row s)
    (hu : Calm origin eng.local_node.id ⟨c.contributor_id, row, s⟩)
    (halone : LeavesAlone origin eng.local_node.id t ⟨c.contributor_id, row, s⟩) :
    PassedOver eng origin t.contributor_id t.row (eng.applyRow c peer_id origin row s).2 := by
  rcases h with ⟨hown, hid, hrecorded⟩ | hstill
  · exact .inl ⟨hown, hid, recorded_persists hc peer_id row hrecorded⟩
  · exact .inr (still_persists hc peer_id hstill hu halone)

theorem passedOver_applyContributorRows (hc : Registered c) {t : Turn b} {rows : List Dict}
    (h : PassedOver eng origin t.contributor_id t.row s)
    (hcalm : ∀ u ∈ eng.rowTurns c peer_id origin rows s, Calm origin eng.local_node.id u)
    (halone : ∀ u ∈ eng.rowTurns c peer_id origin rows s,
      LeavesAlone origin eng.local_node.id t u) :
    PassedOver eng origin t.contributor_id t.row
      (eng.applyContributorRows c peer_id origin rows s).2 := by
  induction rows generalizing s with
  | nil => exact h
  | cons row rows ih =>
    rw [applyContributorRows]
    apply ih
    · exact passedOver_persists hc peer_id h (hcalm _ List.mem_cons_self)
        (halone _ List.mem_cons_self)
    · exact fun u hu => hcalm u (List.mem_cons_of_mem _ hu)
    · exact fun u hu => halone u (List.mem_cons_of_mem _ hu)

/-- Calm rows that leave one another alone are settled at the end of their payload. -/
theorem passedOver_of_turns (hc : Registered c) {rows : List Dict}
    (hcalm : ∀ u ∈ eng.rowTurns c peer_id origin rows s, Calm origin eng.local_node.id u)
    (halone : (eng.rowTurns c peer_id origin rows s).Pairwise
      (LeavesAlone origin eng.local_node.id))
    (ht : t ∈ eng.rowTurns c peer_id origin rows s) :
    PassedOver eng origin t.contributor_id t.row
      (eng.applyContributorRows c peer_id origin rows s).2 := by
  induction rows generalizing s with
  | nil => cases ht
  | cons row rows ih =>
    obtain ⟨hhead, hrest⟩ := List.pairwise_cons.1 halone
    rw [applyContributorRows]
    rcases List.mem_cons.1 ht with rfl | ht
    · apply passedOver_applyContributorRows hc (t := ⟨c.contributor_id, row, s⟩)
      · exact still_of_calm hc peer_id (hcalm _ List.mem_cons_self)
      · exact fun u hu => hcalm u (List.mem_cons_of_mem _ hu)
      · exact hhead
    · exact ih (fun u hu => hcalm u (List.mem_cons_of_mem _ hu)) hrest ht

theorem exists_turn (hrow : row ∈ rows) : ∃ t ∈ eng.rowTurns c peer_id origin rows s,
    t.contributor_id = c.contributor_id ∧ t.row = row := by
  induction rows generalizing s with
  | nil => cases hrow
  | cons row' rows ih =>
    rcases List.mem_cons.1 hrow with rfl | hrow
    · exact ⟨_, List.mem_cons_self, rfl, rfl⟩
    · obtain ⟨t, ht, he⟩ := ih (s := (eng.applyRow c peer_id origin row' s).2) hrow
      exact ⟨t, List.mem_cons_of_mem _ ht, he⟩

theorem passedOver_applyDocs (happs : eng.backup = buildBackupService app_name app_version dir)
    {t : Turn b} {payloads : List (String × JsonDoc)}
    (h : PassedOver eng origin t.contributor_id t.row s)
    (hcalm : ∀ u ∈ eng.docTurns peer_id origin payloads s, Calm origin eng.local_node.id u)
    (halone : ∀ u ∈ eng.docTurns peer_id origin payloads s,
      LeavesAlone origin eng.local_node.id t u) :
    PassedOver eng origin t.contributor_id t.row (eng.applyDocs peer_id origin payloads s).2 := by
  induction payloads generalizing s with
  | nil => exact h
  | cons payload payloads ih =>
    rw [applyDocs_cons]
    rw [docTurns] at hcalm halone
    cases hf : eng.backup.contributors.find payload.1 with
    | none =>
      rw [hf] at hcalm halone
      exact ih h hcalm halone
    | some c =>
      have hc : Registered c := registered_of_find (happs ▸ hf)
      rw [hf] at hcalm halone
      cases hrows : payload.2.dicts with
      | error e => exact h
      | ok rows =>
        simp only [hrows, List.forall_mem_append] at hcalm halone
        apply ih
        · exact passedOver_applyContributorRows hc h hcalm.1 halone.1
        · exact hcalm.2
        · exact halone.2

/-- The filter drops a row with an id that is recorded as the receiver's own. -/
theorem keepsRow_false_iff {loc : String} : keepsRow cid [loc] s row = false ↔
    rowId row ≠ "" ∧
      (getRowOrigin cid (rowId row) s).map SyncRowOrigin.origin_node_id = some loc := by
  rw [keepsRow]
  by_cases hid : rowId row = ""
  · rw [if_pos hid]
    exact iff_of_false Bool.noConfusion fun h => h.1 hid
  · rw [if_neg hid]
    cases getRowOrigin cid (rowId row) s with
    | none => exact iff_of_false Bool.noConfusion fun h => by cases h.2
    | some o =>
      simp only [List.mem_singleton, decide_not, Bool.not_eq_false', decide_eq_true_eq,
        Option.map_some, Option.some.injEq]
      exact ⟨fun h => ⟨hid, h⟩, fun h => h.2⟩

/-- What the filter drops stays recorded as the receiver's own while the payload is applied. -/
theorem dropped_applyContributorRows (hc : Registered c) (peer_id origin : String)
    (rows : List Dict) (h : keepsRow c.contributor_id [eng.local_node.id] s row = false) :
    keepsRow c.contributor_id [eng.local_node.id]
      (eng.applyContributorRows c peer_id origin
        (filterRowsByOrigin rows c.contributor_id [eng.local_node.id] s) s).2 row = false := by
  obtain ⟨hid, hown⟩ := keepsRow_false_iff.1 h
  refine keepsRow_false_iff.2 ⟨hid, ?_⟩
  refine applyContributorRows_invariant (P := fun inst => Option.map _ _ = _) hown ?_
  intro row' hrow' inst hinst
  rcases origin_applyRow hc peer_id origin c.contributor_id (rowId row) row' inst with
    he | ⟨he, _⟩
  · exact he.trans hinst
  · have hkept := (List.mem_filter.1 hrow').2
    have hdropped : keepsRow c.contributor_id [eng.local_node.id] s row' = false :=
      keepsRow_false_iff.2 (by rw [← (Prod.mk.inj he).2]; exact ⟨hid, hown⟩)
    rw [hdropped] at hkept
    cases hkept

theorem dropped_applyDocs (happs : eng.backup = buildBackupService app_name app_version dir)
    (peer_id origin : String) {payloads : List (String × JsonDoc)}
    (hne : cid ∉ payloads.map Prod.fst)
    (h : keepsRow cid [eng.local_node.id] s row = false) :
    keepsRow cid [eng.local_node.id] (eng.applyDocs peer_id origin payloads s).2 row = false := by
  obtain ⟨hid, hown⟩ := keepsRow_false_iff.1 h
  refine keepsRow_false_iff.2 ⟨hid, ?_⟩
  refine applyDocs_invariant (P := fun inst => Option.map _ _ = _) hown ?_
  intro payload hp c hf row' inst hinst
  have hc : Registered c := registered_of_find (happs ▸ hf)
  rcases origin_applyRow hc peer_id origin cid (rowId row) row' inst with
    he | ⟨he, _⟩
  · exact he.trans hinst
  · have hcid : c.contributor_id = payload.1 := KeyedTable.key_of_find hf
    refine (hne ?_).elim
    rw [(Prod.mk.inj he).1, hcid]
    exact List.mem_map_of_mem hp

/-- The rows of the registered contributors, up to the first document that raises. -/
def heardRows (eng : MeshSyncEngine b) : List (String × JsonDoc) → List (String × Dict)
  | [] => []
  | payload :: payloads =>
    match eng.backup.contributors.find payload.1 with
    | none => eng.heardRows payloads
    | some _ =>
      match payload.2.dicts with
      | .error _ => []
      | .ok rows => rows.map (fun row => (payload.1, row)) ++ eng.heardRows payloads

/-- Every row that the filter still keeps is still. -/
def Ready (eng : MeshSyncEngine b) (origin : String) (payloads : List (String × JsonDoc))
    (s : Installation b) : Prop :=
  ∀ p ∈ eng.heardRows payloads, keepsRow p.1 [eng.local_node.id] s p.2 = true →
    Still origin eng.local_node.id p.1 p.2 s

theorem still_of_passedOver (h : PassedOver eng origin cid row s)
    (hkept : keepsRow cid [eng.local_node.id] s row = true) :
    Still origin eng.local_node.id cid row s := by
  rcases h with ⟨rfl, hid, hrecorded⟩ | hstill
  · rw [keepsRow_false_iff.2 ⟨hid, hrecorded⟩] at hkept
    cases hkept
  · exact hstill

/-- Where calm rows leave one another alone, the bundle ends ready to come again. -/
theorem ready_applyDocs (happs : eng.backup = buildBackupService app_name app_version dir)
    {payloads : List (String × JsonDoc)} (hn : (payloads.map Prod.fst).Nodup)
    (hcalm : ∀ u ∈ eng.docTurns peer_id origin payloads s, Calm origin eng.local_node.id u)
    (halone : (eng.docTurns peer_id origin payloads s).Pairwise
      (LeavesAlone origin eng.local_node.id)) :
    eng.Ready origin payloads (eng.applyDocs peer_id origin payloads s).2 := by
  induction payloads generalizing s with
  | nil => exact fun p hp => absurd hp List.not_mem_nil
  | cons payload payloads ih =>
    obtain ⟨hnew, hn⟩ := List.nodup_cons.1 hn
    rw [applyDocs_cons, Ready, heardRows]
    rw [docTurns] at hcalm halone
    cases hf : eng.backup.contributors.find payload.1 with
    | none =>
      rw [hf] at hcalm halone
      exact ih hn hcalm halone
    | some c =>
      have hc : Registered c := registered_of_find (happs ▸ hf)
      have hcid : c.contributor_id = payload.1 := KeyedTable.key_of_find hf
      rw [hf] at hcalm halone
      cases hrows : payload.2.dicts with
      | error e => exact fun p hp => absurd hp List.not_mem_nil
      | ok rows =>
        simp only [hrows, List.forall_mem_append] at hcalm halone
        obtain ⟨hhead, hrest, hcross⟩ := List.pairwise_append.1 halone
        simp only [List.forall_mem_append, List.forall_mem_map]
        refine ⟨fun row hrow => ?_, ih hn hcalm.2 hrest⟩
        by_cases hkept : keepsRow payload.1 [eng.local_node.id] s row = true
        · obtain ⟨t, ht, htc, rfl⟩ := exists_turn (c := c)
            (s := s) (List.mem_filter.2 ⟨hrow, hkept⟩)
          have hsettled := passedOver_applyDocs happs (passedOver_of_turns hc hcalm.1 hhead ht) hcalm.2
            (hcross t ht)
          rw [htc, hcid] at hsettled
          exact still_of_passedOver hsettled
        · rw [Bool.not_eq_true, ← hcid] at hkept
          have hdropped := dropped_applyContributorRows hc peer_id origin rows hkept
          rw [hcid] at hdropped
          rw [dropped_applyDocs happs peer_id origin hnew hdropped]
          exact nofun

/-! ## The second application -/

theorem keepsRow_of_same {t : Installation b} (h : Same t s) {loc : String} :
    keepsRow cid [loc] t row = keepsRow cid [loc] s row := by
  rw [Bool.eq_iff_iff, ← not_iff_not, Bool.not_eq_true, Bool.not_eq_true, keepsRow_false_iff,
    keepsRow_false_iff, h.origins]

theorem Same.applyContributorRows (hc : Registered c) (peer_id : String) {t : Installation b}
    {rows : List Dict} (h : Same t s)
    (hstill : ∀ row ∈ rows, Still origin eng.local_node.id c.contributor_id row s) :
    Same (eng.applyContributorRows c peer_id origin rows t).2 s := by
  refine applyContributorRows_invariant (P := fun inst => Same inst s) h ?_
  intro row hrow inst hinst
  have hrow' : Still origin eng.local_node.id c.contributor_id row inst :=
    (hstill row hrow).transfer (fun m key _ => find_of_table hinst.tables m key) fun hrecorded =>
      (hinst.origins _ _).trans hrecorded
  exact (same_of_still hc hrow' peer_id).trans hinst

/-- A bundle that is ready changes nothing. -/
theorem Same.applyDocs (happs : eng.backup = buildBackupService app_name app_version dir)
    (peer_id : String) {t : Installation b} {payloads : List (String × JsonDoc)} (h : Same t s)
    (hready : eng.Ready origin payloads s) :
    Same (eng.applyDocs peer_id origin payloads t).2 s := by
  induction payloads generalizing t with
  | nil => exact h
  | cons payload payloads ih =>
    rw [applyDocs_cons]
    rw [Ready, heardRows] at hready
    cases hf : eng.backup.contributors.find payload.1 with
    | none =>
      rw [hf] at hready
      exact ih h hready
    | some c =>
      have hc : Registered c := registered_of_find (happs ▸ hf)
      have hcid : c.contributor_id = payload.1 := KeyedTable.key_of_find hf
      cases hrows : payload.2.dicts with
      | error e => exact h
      | ok rows =>
        simp only [hf, hrows, List.forall_mem_append, List.forall_mem_map] at hready
        apply ih _ hready.2
        apply Same.applyContributorRows hc peer_id h
        intro row hrow
        obtain ⟨hmem, hkept⟩ := List.mem_filter.1 hrow
        rw [hcid]
        exact hready.1 row hmem (keepsRow_of_same h ▸ hkept)

end MeshSyncEngine

/-! ## Bundles that come again -/

/-- The rows of a bundle are calm at their turns, and each leaves the earlier ones alone. -/
def Reapplicable (eng : MeshSyncEngine b) (bundle : Tarball) (peer_id : String)
    (origin_node_id : Option String) (inst : Installation b) : Prop :=
  (∀ t ∈ eng.turns bundle peer_id origin_node_id inst,
      Calm (originOf origin_node_id) eng.local_node.id t) ∧
    (eng.turns bundle peer_id origin_node_id inst).Pairwise
      (LeavesAlone (originOf origin_node_id) eng.local_node.id)

section

def nodeEngine : MeshSyncEngine .sqlite := .standard ⟨singletonId, "node"⟩ "app" "1.0" none some

theorem turns_aliceBundle (v : Row .sqlite .user) (inst : Installation .sqlite)
    (h : inst.sync_row_origin.rows = []) :
    nodeEngine.turns (aliceBundle v).tarball "peer" none inst =
      [⟨"users", withTag "users" (rowToDict v), inst⟩] := by
  have hextract := MeshSyncEngine.extractTarball_tarball (aliceBundle v)
  obtain ⟨data, hdata, hrows⟩ : ∃ data, extractBundle (aliceBundle v) = .ok data ∧
      data.2.rows = [("users", [withTag "users" (rowToDict v)])] := by
    have hnodup : ([("users", { rows := [withTag "users" (rowToDict v)] })] :
        List (String × ContributorExport)).map Prod.fst |>.Nodup := List.nodup_singleton _
    obtain ⟨data, hdata, hrows⟩ := extractBundle_buildTarball
      ((buildBackupService (b := .sqlite) "app" "1.0" none).manifest .platform none noon
        [("users", { rows := [withTag "users" (rowToDict v)] })]) hnodup
    exact ⟨_, hdata, hrows⟩
  rw [hdata] at hextract
  rw [MeshSyncEngine.turns]
  cases he : MeshSyncEngine.extractTarball (aliceBundle v).tarball with
  | error e =>
    rw [he] at hextract
    cases hextract
  | ok r =>
    rw [he] at hextract
    cases hextract
    have hdocs : (MeshSyncEngine.docsOf data.2).rows =
        [("users", .ofRows [withTag "users" (rowToDict v)])] :=
      congrArg (List.map fun p : String × List Dict => (p.1, JsonDoc.ofRows p.2)) hrows
    simp only [hdocs]
    have hfind : nodeEngine.backup.contributors.find "users" = some usersContributor := rfl
    rw [MeshSyncEngine.docTurns, hfind, dicts_ofRows]
    simp only [MeshSyncEngine.filterRowsByOrigin_of_no_origins h]
    rfl

/-- A row that carries a version comes back as stored. -/
theorem uniform_of_carries {v : Row b m} (hrow : Carries row v) :
    ∀ given, hydrateRow m row = .ok given → Uniform b m given := by
  intro given hg
  cases hrow.hydrate.symm.trans hg
  rintro ⟨c, hc, w, hw, hforeign⟩
  obtain ⟨hl, hh⟩ := v.lookup hc
  cases hl.symm.trans hw
  have hne := ne_of_foreign hforeign hh
  rw [Val.eq_self] at hne
  cases hne

end

end ScottyCore
