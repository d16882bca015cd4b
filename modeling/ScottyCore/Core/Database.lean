import Mathlib.Logic.Function.Basic
import ScottyCore.Core.Schema
import ScottyCore.Lib.KeyedTable

namespace ScottyCore
open Python
set_option autoImplicit true

/-! ## Serialised rows -/

/-- A cell as `_row_to_dict` emits it. -/
def serialise : Val → Val
  | .datetime d => .str d.isoformat
  | v => v

def rowToDict (r : Row b m) : Dict :=
  r.val.map fun p => (p.1, serialise p.2)

/-- Apply a function to the columns that a row gives, in column order. -/
def mapColumns (f : Column → Val → Except Exc Val) (row : Dict) :
    List Column → Except Exc Dict
  | [] => .ok []
  | c :: cs =>
    match row.lookup c.name with
    | none => mapColumns f row cs
    | some v =>
      match f c v, mapColumns f row cs with
      | .ok v', .ok rest => .ok ((c.name, v') :: rest)
      | .error e, _ => .error e
      | .ok _, .error e => .error e

def hydrateCell (c : Column) : Val → Except Exc Val
  | .str s =>
    if c.type = .dateTime then
      match fromisoformat (replaceChar 'Z' "+00:00" s) with
      | .ok d => .ok (.datetime d)
      | .error e => .error (.python e)
    else .ok (.str s)
  | v => .ok v

def hydrateRow (m : Model) (row : Dict) : Except Exc Dict :=
  mapColumns hydrateCell row m.columns

def bindCell (b : Backend) (c : Column) : Val → Except Exc Val
  | .datetime d =>
    if c.type = .dateTime then
      match b.bindDateTime d with
      | .ok d => .ok (.datetime d)
      | .error e => .error e
    else .ok (.datetime d)
  | v => .ok v

def bindRow (b : Backend) (m : Model) (given : Dict) : Except Exc Dict :=
  mapColumns (bindCell b) given m.columns

theorem hydrateCell_serialise (h : Column.holds b c v = true) :
    hydrateCell c (serialise v) = .ok v := by
  cases v with
  | datetime d =>
    simp only [Column.holds, Bool.and_eq_true, decide_eq_true_eq] at h
    simp only [serialise, hydrateCell, if_pos h.1, replaceChar_isoformat,
      fromisoformat_isoformat]
  | str s =>
    have ht : c.type ≠ .dateTime := by
      intro ht
      simp only [Column.holds, ht, reduceCtorEq, decide_false, Bool.or_self] at h
    simp only [serialise, hydrateCell, if_neg ht]
  | _ => rfl

/-- A cell as another database stores it. -/
def restampCell (b : Backend) : Val → Val
  | .datetime d => .datetime (b.restamp d)
  | v => v

theorem bindCell_of_holds (h : Column.holds b c v = true) (b' : Backend) :
    bindCell b' c v = .ok (restampCell b' v) := by
  cases v with
  | datetime d =>
    simp only [Column.holds, Bool.and_eq_true, decide_eq_true_eq] at h
    simp only [bindCell, if_pos h.1, Backend.bindDateTime_of_native h.2 b']
    rfl
  | _ => rfl

theorem mapColumns_of_lookup {row r : Dict} (hr : r.map Prod.fst = cs.map Column.name)
    (hrow : ∀ c v, (c, v) ∈ cs.zip (r.map Prod.snd) →
      ∃ w, row.lookup c.name = some w ∧ f c w = .ok v) :
    mapColumns f row cs = .ok r := by
  induction cs generalizing r with
  | nil =>
    cases r with
    | nil => rfl
    | cons => cases hr
  | cons c cs ih =>
    cases r with
    | nil => cases hr
    | cons p r =>
      obtain ⟨k, v⟩ := p
      simp only [List.map_cons, List.cons.injEq] at hr
      obtain ⟨rfl, hr⟩ := hr
      obtain ⟨w, hw, hf⟩ := hrow c v (by simp)
      have hrest := ih hr fun c' v' hm => hrow c' v' (by simp [hm])
      simp only [mapColumns, hw, hf, hrest]

theorem mapColumns_cons_ok (h : mapColumns f row (c :: cs) = .ok out) :
    (row.lookup c.name = none ∧ mapColumns f row cs = .ok out) ∨
      ∃ w v rest, row.lookup c.name = some w ∧ f c w = .ok v ∧
        mapColumns f row cs = .ok rest ∧ out = (c.name, v) :: rest := by
  rw [mapColumns] at h
  split at h
  · rename_i hw
    exact .inl ⟨hw, h⟩
  · rename_i w hw
    split at h
    · rename_i v rest hf hr
      cases h
      exact .inr ⟨w, v, rest, hw, hf, hr, rfl⟩
    · cases h
    · cases h

theorem lookup_mapColumns_of_not_mem (h : mapColumns f row cs = .ok out)
    (hk : k ∉ cs.map Column.name) : out.lookup k = none := by
  induction cs generalizing out with
  | nil => cases h; rfl
  | cons c cs ih =>
    rw [List.map_cons, List.mem_cons, not_or] at hk
    rcases mapColumns_cons_ok h with ⟨_, hr⟩ | ⟨w, v, rest, _, _, hr, rfl⟩
    · exact ih hr hk.2
    · have hne : (k == c.name) = false := by rw [beq_eq_false_iff_ne]; exact hk.1
      rw [List.lookup_cons, hne]
      exact ih hr hk.2

theorem lookup_mapColumns (h : mapColumns f row cs = .ok out)
    (hn : (cs.map Column.name).Nodup) (hc : c ∈ cs) :
    (row.lookup c.name = none ∧ out.lookup c.name = none) ∨
      ∃ w v, row.lookup c.name = some w ∧ f c w = .ok v ∧ out.lookup c.name = some v := by
  induction cs generalizing out with
  | nil => cases hc
  | cons c' cs ih =>
    obtain ⟨hc', hn'⟩ := List.nodup_cons.1 hn
    rcases mapColumns_cons_ok h with ⟨hw, hr⟩ | ⟨w, v, rest, hw, hf, hr, rfl⟩
    · rcases List.mem_cons.1 hc with rfl | hc
      · exact .inl ⟨hw, lookup_mapColumns_of_not_mem hr hc'⟩
      · exact ih hr hn' hc
    · rcases List.mem_cons.1 hc with rfl | hc
      · exact .inr ⟨w, v, hw, hf, List.lookup_cons_self⟩
      · have hne : (c.name == c'.name) = false := by
          rw [beq_eq_false_iff_ne]
          intro he
          exact hc' (he ▸ List.mem_map_of_mem hc)
        rw [List.lookup_cons, hne]
        exact ih hr hn' hc

theorem zip_mem_of_fits (h : fits b cs r = true) (hn : (cs.map Column.name).Nodup)
    (hm : (c, v) ∈ cs.zip (r.map Prod.snd)) :
    r.lookup c.name = some v ∧ c.holds b v = true := by
  have hn' : (r.map Prod.fst).Nodup := by rw [fits_names h]; exact hn
  have hmem : (c.name, v) ∈ r ∧ c.holds b v = true := by
    clear hn hn'
    induction cs generalizing r with
    | nil => simp at hm
    | cons c' cs ih =>
      obtain ⟨v', r', rfl, hv, hr⟩ := fits_cons h
      simp only [List.map_cons, List.zip_cons_cons, List.mem_cons, Prod.mk.injEq] at hm
      rcases hm with ⟨rfl, rfl⟩ | hm
      · exact ⟨List.mem_cons_self, hv⟩
      · exact (ih hr hm).imp_left (List.mem_cons_of_mem _)
  exact ⟨lookup_of_mem hn' hmem.1, hmem.2⟩

/-- Hydrating a serialised row gives the row back, whatever other keys travel with it. -/
theorem hydrateRow_rowToDict (r : Row b m) {row : Dict}
    (h : ∀ c ∈ m.columns, row.lookup c.name = (rowToDict r).lookup c.name) :
    hydrateRow m row = .ok r.val := by
  apply mapColumns_of_lookup (fits_names r.property)
  intro c v hm
  obtain ⟨hv, hh⟩ := zip_mem_of_fits r.property m.columnNames_nodup hm
  refine ⟨serialise v, ?_, hydrateCell_serialise hh⟩
  rw [h c (List.of_mem_zip hm).1, rowToDict, lookup_map_snd, hv]
  rfl

/-! ## Tables -/

/-- The contributor tables of one installation, with the reading of `func.now()`, the
identifiers that `new_uuid` draws and the uploaded files (path below the base, content). -/
structure Database (b : Backend) where
  now : { d : DateTime // b.native d = true }
  uuid : Nat → String
  drawn : Nat
  table : (m : Model) → KeyedTable (Row b m) Row.id
  uploads : KeyedTable (List String × List UInt8) Prod.fst

namespace Database

def empty (now : { d : DateTime // b.native d = true }) (uuid : Nat → String) : Database b :=
  ⟨now, uuid, 0, fun _ => ∅, ∅⟩

def find (db : Database b) (m : Model) (key : Val) : Option (Row b m) :=
  (db.table m).find key

def put (db : Database b) (r : Row b m) : Database b :=
  { db with table := Function.update db.table m ((db.table m).upsert r) }

@[simp] theorem find_put_self (db : Database b) (r : Row b m) :
    (db.put r).find m r.id = some r := by
  simp only [find, put, Function.update_self, KeyedTable.find_upsert_self]

theorem table_put_of_ne (db : Database b) (r : Row b m) (h : m' ≠ m) :
    (db.put r).table m' = db.table m' :=
  Function.update_of_ne h ..

theorem find_put_of_ne (db : Database b) (r : Row b m) (h : m' ≠ m ∨ key ≠ r.id) :
    (db.put r).find m' key = db.find m' key := by
  by_cases hm : m' = m
  · subst m'
    simp only [find, put, Function.update_self]
    exact KeyedTable.find_upsert_of_ne _ (h.resolve_left (fun hne => hne rfl))
  · simp only [find, table_put_of_ne db r hm]

theorem id_of_find {db : Database b} (h : db.find m key = some r) : r.id = key :=
  KeyedTable.key_of_find h

end Database

/-! ## `session.merge` -/

/-- The attributes that `session.merge` changes: the SET clause of its UPDATE. -/
def changed (given stored : Dict) (cs : List Column) : Dict :=
  cs.filterMap fun c =>
    ((given.lookup c.name).filter fun v => !v.eq (stored.get c.name)).map fun v => (c.name, v)

/-- A cell after an UPDATE. A column with `onupdate` that the SET clause leaves out reads the
clock. -/
def updateCell (now : DateTime) (set stored : Dict) (c : Column) : Val :=
  match set.lookup c.name with
  | some v => v
  | none => if c.onupdate then .datetime now else stored.get c.name

def updateCells (now : DateTime) (set stored : Dict) (cs : List Column) : Dict :=
  cs.map fun c => (c.name, updateCell now set stored c)

def Default.fill (db : Database b) (m : Model) : Default → Val
  | .none => .none
  | .value v => v
  | .newUuid => .str (db.uuid db.drawn)
  | .now => .datetime db.now
  | .autoincrement =>
    .int (((db.table m).rows.map fun r => match r.id with | .int i => i | _ => 0).foldl max 0 + 1)

/-- A cell after an INSERT: a column given as `None` takes its default too. -/
def insertCell (db : Database b) (m : Model) (given : Dict) (c : Column) : Val :=
  match given.lookup c.name with
  | some .none => c.default.fill db m
  | some v => v
  | none => c.default.fill db m

def insertCells (db : Database b) (m : Model) (given : Dict) (cs : List Column) : Dict :=
  cs.map fun c => (c.name, insertCell db m given c)

/-- Another row agrees with the new one on a unique column group. Nulls never agree. -/
def violatesUnique (db : Database b) (m : Model) (new : Dict) : Bool :=
  (db.table m).rows.any fun r =>
    decide (r.id ≠ new.get "id") && m.uniques.any fun cols =>
      cols.all fun c => decide (new.get c ≠ .none) && (new.get c).eq (r.get c)

/-- Flush one row: it must fit its columns and respect the unique constraints. -/
def flushRow (m : Model) (new : Dict) (db : Database b) : Except Exc (Database b) :=
  if h : fits b m.columns new = true then
    if violatesUnique db m new then
      .error (.integrityError ("UNIQUE constraint failed: " ++ m.tablename))
    else .ok (db.put (m := m) ⟨new, h⟩)
  else .error (.statementError ("a column of " ++ m.tablename ++ " cannot hold its value"))

/-- Insert a new row, with the defaults of the columns that are not given. -/
def insertRow (m : Model) (given : Dict) (db : Database b) : Except Exc (Database b) :=
  let new := insertCells db m given m.columns
  if (db.find m (new.get "id")).isSome then
    .error (.integrityError ("UNIQUE constraint failed: " ++ m.tablename ++ ".id"))
  else flushRow m new { db with drawn := db.drawn + 1 }

/-- `session.merge(model(**_hydrate_row(model, row)))` and the flush that follows it. -/
def mergeRow (m : Model) (row : Dict) (db : Database b) : Except Exc (Database b) := do
  let given ← hydrateRow m row
  let key := given.get "id"
  match if key = .none then none else db.find m key with
  | some stored =>
    -- An unchanged instance is not dirty: nothing is sent.
    if changed given stored.val m.columns = [] then .ok db
    else
      let set ← bindRow b m (changed given stored.val m.columns)
      flushRow m (updateCells db.now set stored.val m.columns) db
  | none =>
    let given ← bindRow b m given
    insertRow m given db

/-- `_upsert_rows`: all rows in one transaction. -/
def upsertRows (m : Model) (rows : List Dict) (db : Database b) :
    Except Exc (Nat × Database b) :=
  rows.foldlM (fun (count, db) row => do
    let db ← mergeRow m row db
    .ok (count + 1, db)) (0, db)

end ScottyCore
