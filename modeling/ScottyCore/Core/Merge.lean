import ScottyCore.Core.Database

namespace ScottyCore
open Python
set_option autoImplicit true

variable {b b' : Backend} {m m' : Model}

/-! ## Columns -/

theorem Model.id_column (m : Model) :
    ∃ c ∈ m.columns, c.name = "id" ∧ c.type ≠ .dateTime ∧ c.nullable = false ∧
      c.onupdate = false := by
  cases m <;> exact ⟨_, List.mem_cons_self, by decide⟩

theorem Model.onupdate_iff {m : Model} (hc : c ∈ m.columns) :
    c.onupdate = true ↔ c.name = "updated_at" := by
  have hall : ∀ c ∈ m.columns, c.onupdate = true ↔ c.name = "updated_at" := by
    cases m <;> decide
  exact hall c hc

theorem Model.updated_at_type {m : Model} (hc : c ∈ m.columns) (h : c.name = "updated_at") :
    c.type = .dateTime := by
  have hall : ∀ c ∈ m.columns, c.name = "updated_at" → c.type = .dateTime := by
    cases m <;> decide
  exact hall c hc h

theorem lookup_map_columns {cs : List Column} (g : Column → Val) (hc : c ∈ cs)
    (hn : (cs.map Column.name).Nodup) :
    List.lookup c.name (cs.map fun c => (c.name, g c)) = some (g c) := by
  apply lookup_of_mem
  · simpa only [List.map_map, Function.comp_def] using hn
  · exact List.mem_map_of_mem hc

theorem lookup_filterMap_of_not_mem {cs : List Column} (g : Column → Option Val)
    (hk : k ∉ cs.map Column.name) :
    List.lookup k (cs.filterMap fun c => (g c).map fun v => (c.name, v)) = none := by
  induction cs with
  | nil => rfl
  | cons c cs ih =>
    rw [List.map_cons, List.mem_cons, not_or] at hk
    cases hg : g c with
    | none => rw [List.filterMap_cons_none (by rw [hg]; rfl)]; exact ih hk.2
    | some v =>
      have hne : (k == c.name) = false := by rw [beq_eq_false_iff_ne]; exact hk.1
      rw [List.filterMap_cons_some (by rw [hg]; rfl), List.lookup_cons, hne]
      exact ih hk.2

theorem lookup_filterMap_columns {cs : List Column} (g : Column → Option Val) (hc : c ∈ cs)
    (hn : (cs.map Column.name).Nodup) :
    List.lookup c.name (cs.filterMap fun c => (g c).map fun v => (c.name, v)) = g c := by
  induction cs with
  | nil => cases hc
  | cons c' cs ih =>
    obtain ⟨hc', hn'⟩ := List.nodup_cons.1 hn
    rcases List.mem_cons.1 hc with rfl | hc
    · cases hg : g c with
      | none =>
        rw [List.filterMap_cons_none (by rw [hg]; rfl)]
        exact lookup_filterMap_of_not_mem g hc'
      | some v =>
        rw [List.filterMap_cons_some (by rw [hg]; rfl)]
        exact List.lookup_cons_self
    · have hne : (c.name == c'.name) = false := by
        rw [beq_eq_false_iff_ne]
        intro he
        exact hc' (he ▸ List.mem_map_of_mem hc)
      cases hg : g c' with
      | none => rw [List.filterMap_cons_none (by rw [hg]; rfl)]; exact ih hc hn'
      | some v =>
        rw [List.filterMap_cons_some (by rw [hg]; rfl), List.lookup_cons, hne]
        exact ih hc hn'

/-! ## Rows -/

namespace Row

theorem val_eq (r : Row b m) : r.val = m.columns.map fun c => (c.name, r.get c.name) := by
  have hn : (r.val.map Prod.fst).Nodup := by rw [fits_names r.property]; exact m.columnNames_nodup
  have hself : r.val = r.val.map fun p => (p.1, r.get p.1) := by
    conv => lhs; rw [← List.map_id r.val]
    apply List.map_congr_left
    intro p hp
    have hl := lookup_of_mem hn (show (p.1, p.2) ∈ r.val from hp)
    simp only [id_eq, get, Dict.get, hl, Option.getD_some, Prod.mk.eta]
  have hcols : (r.val.map Prod.fst).map (fun k => (k, r.get k)) =
      (m.columns.map Column.name).map fun k => (k, r.get k) := by rw [fits_names r.property]
  rw [List.map_map, List.map_map] at hcols
  exact hself.trans hcols

theorem ext {r s : Row b m} (h : ∀ c ∈ m.columns, r.get c.name = s.get c.name) : r = s := by
  apply Subtype.ext
  rw [r.val_eq, s.val_eq]
  apply List.map_congr_left
  intro c hc
  rw [h c hc]

theorem id_ne_none (r : Row b m) : r.id ≠ .none := by
  obtain ⟨c, hc, hid, _, hn, _⟩ := m.id_column
  obtain ⟨_, hh⟩ := r.lookup hc
  rw [hid] at hh
  intro he
  have he' : r.get "id" = .none := he
  rw [he', Column.holds, hn] at hh
  cases hh

end Row

theorem fits_map {cs : List Column} {g : Column → Val}
    (h : ∀ c ∈ cs, c.holds b (g c) = true) :
    fits b cs (cs.map fun c => (c.name, g c)) = true := by
  induction cs with
  | nil => rfl
  | cons c cs ih =>
    simp only [List.map_cons, fits, decide_true, Bool.true_and, Bool.and_eq_true]
    exact ⟨h c List.mem_cons_self, ih fun c' hc' => h c' (List.mem_cons_of_mem _ hc')⟩

theorem holds_restampCell {c : Column} (h : c.holds b v = true) (b' : Backend) :
    c.holds b' (restampCell b' v) = true := by
  cases v with
  | datetime d =>
    simp only [Column.holds, Bool.and_eq_true] at h
    simp only [restampCell, Column.holds, Bool.and_eq_true]
    exact ⟨h.1, b'.restamp_native d⟩
  | _ => exact h

theorem restampCell_of_holds {c : Column} (h : c.holds b v = true) : restampCell b v = v := by
  cases v with
  | datetime d =>
    simp only [Column.holds, Bool.and_eq_true] at h
    rw [restampCell, Backend.restamp_of_native h.2]
  | _ => rfl

namespace Row

variable {now : { d : DateTime // b.native d = true }}

def ofCells (g : Column → Val) (h : ∀ c ∈ m.columns, c.holds b (g c) = true) : Row b m :=
  ⟨m.columns.map fun c => (c.name, g c), fits_map h⟩

theorem get_ofCells {g : Column → Val} (hc : c ∈ m.columns)
    (h : ∀ c ∈ m.columns, c.holds b (g c) = true) :
    (ofCells g h).get c.name = g c := by
  rw [get, Dict.get, ofCells, lookup_map_columns g hc m.columnNames_nodup, Option.getD_some]

/-- A row of one database as another one stores it. -/
def on (b' : Backend) (v : Row b m) : Row b' m :=
  ofCells (fun c => restampCell b' (v.get c.name)) fun _ hc =>
    holds_restampCell (v.lookup hc).2 b'

theorem get_on (b' : Backend) (v : Row b m) (hc : c ∈ m.columns) :
    (v.on b').get c.name = restampCell b' (v.get c.name) :=
  get_ofCells hc _

theorem on_self (v : Row b m) : v.on b = v :=
  ext fun _ hc => (get_on b v hc).trans (restampCell_of_holds (v.lookup hc).2)

theorem id_on (b' : Backend) (v : Row b m) : (v.on b').id = v.id := by
  obtain ⟨c, hc, hid, ht, _, _⟩ := m.id_column
  have hget := get_on b' v hc
  rw [hid] at hget
  obtain ⟨_, hh⟩ := v.lookup hc
  rw [hid] at hh
  rw [Row.id, hget]
  change restampCell b' (v.get "id") = v.get "id"
  cases hv : v.get "id" with
  | datetime d =>
    rw [hv] at hh
    simp only [Column.holds, Bool.and_eq_true, decide_eq_true_eq] at hh
    exact (ht hh.1).elim
  | _ => rfl

def touch (now : { d : DateTime // b.native d = true }) (r : Row b m) : Row b m :=
  ofCells (fun c => if c.onupdate then .datetime now else r.get c.name) <| by
    intro c hc
    by_cases ho : c.onupdate = true
    · have ht := Model.updated_at_type hc ((Model.onupdate_iff hc).1 ho)
      simp only [ho, if_true, Column.holds, ht, decide_true, Bool.true_and]
      exact now.property
    · simp only [ho, Bool.false_eq_true, if_false]
      exact (r.lookup hc).2

theorem get_touch (r : Row b m) (now : { d : DateTime // b.native d }) (hc : c ∈ m.columns) :
    (r.touch now).get c.name = if c.onupdate then .datetime now else r.get c.name :=
  get_ofCells hc _

theorem id_touch (r : Row b m) : (r.touch now).id = r.id := by
  obtain ⟨c, hc, hid, _, _, ho⟩ := m.id_column
  have hget := r.get_touch now hc
  rwa [ho, hid] at hget

end Row

/-! ## Merging one row -/

theorem hydrateCell_id (h : Column.type c ≠ .dateTime) : hydrateCell c v = .ok v := by
  cases v with
  | str s => exact if_neg h
  | _ => rfl

theorem get_id_mapColumns (h : mapColumns f row m.columns = .ok given)
    (hf : ∀ {c : Column} {v : Val}, c.type ≠ .dateTime → f c v = .ok v) :
    given.get "id" = row.get "id" := by
  obtain ⟨c, hc, hid, ht, _, _⟩ := m.id_column
  rw [Dict.get, Dict.get, ← hid]
  rcases lookup_mapColumns h m.columnNames_nodup hc with ⟨hr, hg⟩ | ⟨w, v, hr, hw, hg⟩
  · rw [hr, hg]
  · rw [hf ht] at hw
    cases hw
    rw [hr, hg]

theorem lookup_changed {c : Column} (given stored : Dict) (hc : c ∈ m.columns) :
    (changed given stored m.columns).lookup c.name =
      (given.lookup c.name).filter fun v => !v.eq (stored.get c.name) :=
  lookup_filterMap_columns
    (fun c => (given.lookup c.name).filter fun v => !v.eq (stored.get c.name))
    hc m.columnNames_nodup

theorem updateCells_id {l : Row b m} (now : DateTime) (hg : given.get "id" = l.id)
    (hs : bindRow b m (changed given l.val m.columns) = .ok assigned) :
    (updateCells now assigned l.val m.columns).get "id" = l.id := by
  obtain ⟨c, hc, hid, _, _, ho⟩ := m.id_column
  have hch := lookup_changed given l.val hc
  have hset : List.lookup c.name assigned = none := by
    have hnone : (changed given l.val m.columns).lookup c.name = none := by
      rw [hch, hid]
      cases hv : List.lookup "id" given with
      | none => rfl
      | some v =>
        rw [Dict.get, hv, Option.getD_some] at hg
        subst hg
        rw [Option.filter_some, show l.val.get "id" = l.id from rfl, Val.eq_self]
        rfl
    rcases lookup_mapColumns hs m.columnNames_nodup hc with ⟨_, h⟩ | ⟨w, _, h, _⟩
    · exact h
    · rw [hnone] at h
      cases h
  rw [Dict.get, updateCells, ← hid, lookup_map_columns _ hc m.columnNames_nodup,
    Option.getD_some, updateCell, hset, ho, hid]
  rfl

theorem flushRow_ok {db db' : Database b} (h : flushRow m new db = .ok db') :
    ∃ r : Row b m, r.val = new ∧ db' = db.put r := by
  unfold flushRow at h
  split at h
  · rename_i hf
    split at h
    · cases h
    · cases h
      exact ⟨⟨new, hf⟩, rfl, rfl⟩
  · cases h

/-- A column whose values neither the merge nor the database turns into others. -/
structure Column.Plain (c : Column) : Prop where
  type : c.type ≠ .dateTime
  onupdate : c.onupdate = false
  default : c.default = .none

theorem bindCell_plain (b : Backend) {c : Column} (h : c.type ≠ .dateTime) (v : Val) :
    bindCell b c v = .ok v := by
  cases v with
  | datetime d => exact if_neg h
  | _ => rfl

theorem lookup_mapColumns_plain {c : Column} (h : mapColumns f row m.columns = .ok out)
    (hc : c ∈ m.columns) (hf : ∀ v, f c v = .ok v) : out.lookup c.name = row.lookup c.name := by
  rcases lookup_mapColumns h m.columnNames_nodup hc with ⟨hr, ho⟩ | ⟨w, v, hr, hv, ho⟩
  · rw [hr, ho]
  · rw [hf] at hv
    cases hv
    rw [hr, ho]

theorem eq_of_plain {l : Row b m} {c : Column} (hc : c ∈ m.columns) (hp : c.Plain)
    (h : v.eq (l.get c.name) = true) : v = l.get c.name := by
  have hstored := (l.lookup hc).2
  cases hl : l.get c.name with
  | datetime d =>
    rw [hl, Column.holds, Bool.and_eq_true, decide_eq_true_eq] at hstored
    exact (hp.type hstored.1).elim
  | _ =>
    rw [hl] at h
    cases v <;> exact of_decide_eq_true h

theorem updateCells_plain {l : Row b m} {c : Column} (hc : c ∈ m.columns) (hp : c.Plain)
    (hg : hydrateRow m row = .ok given)
    (hs : bindRow b m (changed given l.val m.columns) = .ok assigned) :
    (updateCells now assigned l.val m.columns).get c.name = row.getD c.name (l.get c.name) := by
  have hgiven := lookup_mapColumns_plain hg hc fun _ => hydrateCell_id hp.type
  have hset := lookup_mapColumns_plain hs hc (bindCell_plain b hp.type)
  rw [lookup_changed _ _ hc, hgiven] at hset
  rw [Dict.get, updateCells, lookup_map_columns _ hc m.columnNames_nodup, Option.getD_some,
    updateCell, hset, Dict.getD, hp.onupdate]
  cases hv : row.lookup c.name with
  | none => rfl
  | some v =>
    by_cases he : v.eq (l.val.get c.name) = true
    · rw [Option.filter_some, he]
      exact (eq_of_plain hc hp he).symm
    · rw [Option.filter_some, Bool.eq_false_iff.2 he]
      rfl

theorem insertCells_plain {db : Database b} {c : Column} (hc : c ∈ m.columns) (hp : c.Plain)
    (hg : hydrateRow m row = .ok given) (hs : bindRow b m given = .ok bound) :
    (insertCells db m bound m.columns).get c.name = row.get c.name := by
  have hgiven := lookup_mapColumns_plain hg hc fun _ => hydrateCell_id hp.type
  have hbound := lookup_mapColumns_plain hs hc (bindCell_plain b hp.type)
  rw [Dict.get, insertCells, lookup_map_columns _ hc m.columnNames_nodup, Option.getD_some,
    insertCell, hbound, hgiven, hp.default, Dict.get]
  cases row.lookup c.name with
  | none => rfl
  | some v => cases v <;> rfl

theorem insertRow_ok {db db' : Database b} (h : insertRow m given db = .ok db') :
    ∃ r : Row b m, r.val = insertCells db m given m.columns ∧ db.find m r.id = none ∧
      db' = Database.put { db with drawn := db.drawn + 1 } r := by
  simp only [insertRow] at h
  split at h
  · cases h
  · rename_i hnone
    obtain ⟨r, hr, hdb⟩ := flushRow_ok h
    refine ⟨r, hr, ?_, hdb⟩
    rw [Row.id, Row.get, hr]
    simpa using hnone

/-- Everything that merging one row can do to a database: nothing, an UPDATE or an INSERT. -/
theorem mergeRow_inv {db db' : Database b} (h : mergeRow m row db = .ok db') :
    ∃ given, hydrateRow m row = .ok given ∧
      ((∃ l : Row b m, db.find m (row.get "id") = some l ∧
          changed given l.val m.columns = [] ∧ db' = db) ∨
        (∃ (l r : Row b m) (assigned : Dict), db.find m (row.get "id") = some l ∧
          changed given l.val m.columns ≠ [] ∧
          bindRow b m (changed given l.val m.columns) = .ok assigned ∧
          r.val = updateCells db.now assigned l.val m.columns ∧ r.id = row.get "id" ∧
          db' = db.put r) ∨
        ∃ (r : Row b m) (bound : Dict), (row.get "id" = .none ∨ db.find m (row.get "id") = none) ∧
          bindRow b m given = .ok bound ∧ r.val = insertCells db m bound m.columns ∧
          db.find m r.id = none ∧ db' = Database.put { db with drawn := db.drawn + 1 } r) := by
  unfold mergeRow at h
  simp only [bind, Except.bind] at h
  split at h
  · cases h
  rename_i given hg
  refine ⟨given, hg, ?_⟩
  have hid : given.get "id" = row.get "id" := get_id_mapColumns hg hydrateCell_id
  rw [hid] at h
  split at h
  · rename_i l hl
    have hl' : db.find m (row.get "id") = some l := by
      split at hl
      · cases hl
      · exact hl
    split at h
    · rename_i hsame
      cases h
      exact .inl ⟨l, hl', hsame, rfl⟩
    · rename_i hch
      split at h
      · cases h
      · rename_i assigned hset
        obtain ⟨r, hr, hdb⟩ := flushRow_ok h
        have hlid := Database.id_of_find hl'
        have hu := updateCells_id db.now (hid.trans hlid.symm) hset
        rw [← hr] at hu
        exact .inr (.inl ⟨l, r, assigned, hl', hch, hset, hr, hu.trans hlid, hdb⟩)
  · rename_i hn
    split at h
    · cases h
    · rename_i bound hbound
      obtain ⟨r, hr, hnone, hdb⟩ := insertRow_ok h
      refine .inr (.inr ⟨r, bound, ?_, hbound, hr, hnone, hdb⟩)
      by_cases hk : row.get "id" = .none
      · exact .inl hk
      · exact .inr (by rwa [if_neg hk] at hn)

/-- Everything that merging one row can do to a database, with what it writes in plain columns. -/
theorem mergeRow_written {db db' : Database b} (h : mergeRow m row db = .ok db') :
    (∃ l : Row b m, db.find m (row.get "id") = some l ∧ db' = db) ∨
      (∃ l r : Row b m, db.find m (row.get "id") = some l ∧ r.id = row.get "id" ∧
        (∀ c ∈ m.columns, c.Plain → r.get c.name = row.getD c.name (l.get c.name)) ∧
        db' = db.put r) ∨
      ∃ r : Row b m, (row.get "id" = .none ∨ db.find m (row.get "id") = none) ∧
        db.find m r.id = none ∧ (∀ c ∈ m.columns, c.Plain → r.get c.name = row.get c.name) ∧
        db' = Database.put { db with drawn := db.drawn + 1 } r := by
  obtain ⟨given, hg, ⟨l, hl, _, hdb⟩ | ⟨l, r, assigned, hl, _, hset, hr, hid, hdb⟩ |
    ⟨r, bound, hkey, hbound, hr, hnone, hdb⟩⟩ := mergeRow_inv h
  · exact .inl ⟨l, hl, hdb⟩
  · refine .inr (.inl ⟨l, r, hl, hid, fun c hc hp => ?_, hdb⟩)
    rw [Row.get, hr]
    exact updateCells_plain hc hp hg hset
  · refine .inr (.inr ⟨r, hkey, hnone, fun c hc hp => ?_, hdb⟩)
    rw [Row.get, hr]
    exact insertCells_plain hc hp hg hbound

theorem mergeRow_cases {db db' : Database b} (h : mergeRow m row db = .ok db') :
    (∃ l : Row b m, db.find m (row.get "id") = some l ∧ db' = db) ∨
      (∃ l r : Row b m, db.find m (row.get "id") = some l ∧ r.id = row.get "id" ∧
        db' = db.put r) ∨
      ∃ r : Row b m, (row.get "id" = .none ∨ db.find m (row.get "id") = none) ∧
        db.find m r.id = none ∧ db' = Database.put { db with drawn := db.drawn + 1 } r := by
  rcases mergeRow_written h with hsame | ⟨l, r, hl, hid, _, hdb⟩ | ⟨r, hkey, hnew, _, hdb⟩
  · exact .inl hsame
  · exact .inr (.inl ⟨l, r, hl, hid, hdb⟩)
  · exact .inr (.inr ⟨r, hkey, hnew, hdb⟩)

theorem find_mergeRow_of_ne {db db' : Database b} (h : mergeRow m row db = .ok db')
    (hne : m' ≠ m ∨ key ≠ row.get "id") (hl : db.find m' key = some l) :
    db'.find m' key = some l := by
  rcases mergeRow_cases h with ⟨_, _, rfl⟩ | ⟨l', r, _, hid, rfl⟩ | ⟨r, _, hnone, rfl⟩
  · exact hl
  · rw [Database.find_put_of_ne _ _ (by rwa [hid])]
    exact hl
  · rw [Database.find_put_of_ne]
    · exact hl
    · by_cases hm : m' = m
      · subst m'
        right
        intro he
        rw [he, hnone] at hl
        cases hl
      · exact .inl hm

/-! ## Merging a version of a stored row -/

/-- A JSON row that carries the cells of a stored row, whatever else travels with them. -/
def Carries (row : Dict) (v : Row b m) : Prop :=
  ∀ c ∈ m.columns, row.lookup c.name = (rowToDict v).lookup c.name

instance (row : Dict) (v : Row b m) : Decidable (Carries row v) :=
  inferInstanceAs (Decidable (∀ c ∈ m.columns, _))

/-- Every cell of two versions of a row agrees. -/
def Row.agrees (v : Row b m) (l : Row b' m) : Bool :=
  m.columns.all fun c => (v.get c.name).eq (l.get c.name)

theorem Carries.get {v : Row b m} (h : Carries row v) (hc : c ∈ m.columns) :
    row.lookup c.name = some (serialise (v.get c.name)) := by
  rw [h c hc, rowToDict, lookup_map_snd, (v.lookup hc).1]
  rfl

theorem Carries.hydrate {v : Row b m} (h : Carries row v) : hydrateRow m row = .ok v.val :=
  hydrateRow_rowToDict v h

theorem Carries.id {v : Row b m} (h : Carries row v) : row.get "id" = v.id :=
  (get_id_mapColumns h.hydrate hydrateCell_id).symm

theorem restampCell_of_eq {v w : Val} (hv : Column.holds b c v = true)
    (hw : Column.holds b' c w = true) (h : v.eq w = true) : restampCell b' v = w := by
  cases v with
  | datetime d =>
    cases w with
    | datetime e =>
      simp only [Column.holds, Bool.and_eq_true] at hv hw
      have hnaive : d.isNaive = e.isNaive := (of_decide_eq_true h).1
      rw [Backend.isNaive_of_native hv.2, Backend.isNaive_of_native hw.2] at hnaive
      have hb : b = b' := by cases b <;> cases b' <;> first | rfl | cases hnaive
      subst hb
      have ho : d.utcoffset = e.utcoffset :=
        (of_decide_eq_true hv.2).trans (of_decide_eq_true hw.2).symm
      rw [restampCell, Backend.restamp_of_native hv.2, DateTime.eq_of_eq h ho]
    | _ => simp only [Val.eq, reduceCtorEq, decide_false, Bool.false_eq_true] at h
  | _ =>
    simp only [Val.eq, decide_eq_true_eq] at h
    exact h

theorem Row.on_of_agrees {v : Row b m} {l : Row b' m} (h : v.agrees l = true) :
    v.on b' = l := by
  apply Row.ext
  intro c hc
  have he : (v.get c.name).eq (l.get c.name) = true := List.all_eq_true.1 h c hc
  rw [Row.get_on b' v hc]
  exact restampCell_of_eq (v.lookup hc).2 (l.lookup hc).2 he

theorem changed_eq_nil_iff (v : Row b m) (l : Row b' m) :
    changed v.val l.val m.columns = [] ↔ v.agrees l = true := by
  rw [changed, List.filterMap_eq_nil_iff, Row.agrees, List.all_eq_true]
  apply forall₂_congr
  intro c hc
  rw [(v.lookup hc).1, Option.filter_some]
  change _ ↔ (v.get c.name).eq (Dict.get l.val c.name) = true
  cases (v.get c.name).eq (Dict.get l.val c.name) <;> simp

/-- What merging a version onto a stored row leaves: the version, except that `onupdate` sets
an equal `updated_at` anew when another column changes. -/
def Row.over (now : { d : DateTime // b'.native d = true }) (v : Row b m) (l : Row b' m) :
    Row b' m :=
  if (v.get "updated_at").eq (l.get "updated_at") ∧ v.agrees l = false then (v.on b').touch now
  else v.on b'

theorem mapColumns_ok {cs : List Column}
    (h : ∀ c ∈ cs, ∀ v, row.lookup c.name = some v → ∃ w, f c v = .ok w) :
    ∃ out, mapColumns f row cs = .ok out := by
  induction cs with
  | nil => exact ⟨[], rfl⟩
  | cons c cs ih =>
    obtain ⟨out, hout⟩ := ih fun c' hc' => h c' (List.mem_cons_of_mem _ hc')
    cases hv : row.lookup c.name with
    | none => exact ⟨out, by simp only [mapColumns, hv, hout]⟩
    | some v =>
      obtain ⟨w, hw⟩ := h c List.mem_cons_self v hv
      exact ⟨(c.name, w) :: out, by simp only [mapColumns, hv, hw, hout]⟩

theorem lookup_changed_row (v : Row b m) (l : Row b' m) (hc : c ∈ m.columns) :
    (changed v.val l.val m.columns).lookup c.name =
      if (v.get c.name).eq (l.get c.name) then none else some (v.get c.name) := by
  rw [lookup_changed _ _ hc, (v.lookup hc).1, Option.filter_some]
  change (if (!(v.get c.name).eq (l.get c.name)) = true then _ else _) = _
  cases (v.get c.name).eq (l.get c.name) <;> rfl

theorem bindRow_changed (v : Row b m) (l : Row b' m) :
    ∃ assigned, bindRow b' m (changed v.val l.val m.columns) = .ok assigned ∧
      ∀ c ∈ m.columns, List.lookup c.name assigned =
        if (v.get c.name).eq (l.get c.name) then none
        else some (restampCell b' (v.get c.name)) := by
  obtain ⟨assigned, ha⟩ :
      ∃ assigned, bindRow b' m (changed v.val l.val m.columns) = .ok assigned := by
    apply mapColumns_ok
    intro c hc w hw
    rw [lookup_changed_row v l hc] at hw
    split at hw
    · cases hw
    · cases hw
      exact ⟨_, bindCell_of_holds (v.lookup hc).2 b'⟩
  refine ⟨assigned, ha, ?_⟩
  intro c hc
  rcases lookup_mapColumns ha m.columnNames_nodup hc with ⟨hw, hout⟩ | ⟨w, x, hw, hf, hout⟩
  · rw [lookup_changed_row v l hc] at hw
    rw [hout]
    split at hw
    · rename_i he; rw [if_pos he]
    · cases hw
  · rw [lookup_changed_row v l hc] at hw
    rw [hout]
    split at hw
    · cases hw
    · rename_i he
      cases hw
      rw [bindCell_of_holds (v.lookup hc).2 b'] at hf
      cases hf
      rw [if_neg he]

/-- The UPDATE that merging a differing version sends writes `Row.over`. -/
theorem updateCells_over (now : { d : DateTime // b'.native d = true }) (v : Row b m)
    (l : Row b' m) (hne : v.agrees l = false)
    (ha : ∀ c ∈ m.columns, List.lookup c.name assigned =
      if (v.get c.name).eq (l.get c.name) then none
      else some (restampCell b' (v.get c.name))) :
    updateCells now assigned l.val m.columns = (v.over now l).val := by
  rw [Row.val_eq (v.over now l), updateCells]
  apply List.map_congr_left
  intro c hc
  rw [updateCell, ha c hc]
  congr 1
  have hon : (v.get c.name).eq (l.get c.name) = true →
      restampCell b' (v.get c.name) = l.get c.name :=
    restampCell_of_eq (v.lookup hc).2 (l.lookup hc).2
  by_cases ho : c.onupdate = true
  · have hname := (Model.onupdate_iff hc).1 ho
    by_cases he : (v.get c.name).eq (l.get c.name) = true
    · have hover : v.over now l = (v.on b').touch now := if_pos ⟨hname ▸ he, hne⟩
      rw [hover, Row.get_touch _ _ hc, if_pos he, if_pos ho]
      simp only [ho, if_true]
    · have hover : v.over now l = v.on b' := if_neg fun h => he (hname ▸ h.1)
      rw [hover, Row.get_on b' v hc, if_neg he]
  · have hover : (v.over now l).get c.name = restampCell b' (v.get c.name) := by
      unfold Row.over
      split
      · rw [Row.get_touch _ _ hc, if_neg ho, Row.get_on b' v hc]
      · exact Row.get_on b' v hc
    rw [hover]
    by_cases he : (v.get c.name).eq (l.get c.name) = true
    · rw [if_pos he]
      simp only [ho, Bool.false_eq_true, if_false]
      exact (hon he).symm
    · rw [if_neg he]

/-- Merging a version of a stored row: nothing, a unique clash, or `Row.over`. -/
theorem mergeRow_carried {db : Database b'} {v : Row b m} (hrow : Carries row v)
    (hl : db.find m v.id = some l) :
    mergeRow m row db =
      if v.agrees l then .ok db
      else if violatesUnique db m (v.over db.now l).val then
        .error (.integrityError ("UNIQUE constraint failed: " ++ m.tablename))
      else .ok (db.put (v.over db.now l)) := by
  have hkey : (if v.val.get "id" = .none then none else db.find m (v.val.get "id")) = some l :=
    (if_neg v.id_ne_none).trans hl
  simp only [mergeRow, hrow.hydrate, bind, Except.bind]
  rw [hkey]
  by_cases hag : v.agrees l = true
  · simp only [(changed_eq_nil_iff v l).2 hag, hag, if_true]
  · have hch : changed v.val l.val m.columns ≠ [] := fun h => hag ((changed_eq_nil_iff v l).1 h)
    obtain ⟨assigned, hb, ha⟩ := bindRow_changed v l
    have hover := updateCells_over db.now v l (by simpa using hag) ha
    simp only [if_neg hch, hb, hag, hover, flushRow, Bool.false_eq_true, if_false]
    rw [dif_pos (v.over db.now l).property]

theorem Row.over_of_ne {v : Row b m} {l : Row b' m}
    (h : (v.get "updated_at").eq (l.get "updated_at") = false) : v.over now l = v.on b' := by
  apply if_neg
  intro hc
  rw [h] at hc
  cases hc.1

theorem Row.agrees_self (v : Row b m) : v.agrees v = true := by
  rw [Row.agrees, List.all_eq_true]
  intro c _
  exact Val.eq_self _

theorem Row.over_of_agrees {v : Row b' m} {l : Row b m} (h : v.agrees l = true) :
    v.over now l = v.on b := by
  apply if_neg
  intro hc
  rw [h] at hc
  cases hc.2

theorem Model.timestamped_of_onupdate {m : Model} (hc : c ∈ m.columns) (h : c.onupdate = true) :
    m.timestamped = true := by
  have hall : ∀ c ∈ m.columns, c.onupdate = true → m.timestamped = true := by
    cases m <;> decide
  exact hall c hc h

theorem touch_of_unstamped (ht : m.timestamped = false) (r : Row b m) : r.touch now = r := by
  apply Row.ext
  intro c hc
  rw [Row.get_touch _ _ hc, if_neg]
  intro ho
  rw [Model.timestamped_of_onupdate hc ho] at ht
  cases ht

/-- A version that is stored already is merged without effect, also where it is stored with
another offset. -/
theorem over_on (v : Row b m) : v.over now (v.on b') = v.on b' := by
  by_cases hb : b = b'
  · subst hb
    apply Row.over_of_agrees
    rw [Row.on_self, Row.agrees_self]
  · cases ht : m.timestamped with
    | false =>
      unfold Row.over
      rw [touch_of_unstamped ht, ite_self]
    | true =>
      apply Row.over_of_ne
      obtain ⟨d, hv, hn⟩ := v.updated_at ht
      have hget := Row.get_on b' v (Model.updated_at_mem ht)
      change (v.on b').get "updated_at" = restampCell b' (v.get "updated_at") at hget
      rw [hget, hv, restampCell, Val.eq, DateTime.eq, decide_eq_false_iff_not]
      intro hc
      have hnaive := hc.1
      rw [Backend.isNaive_of_native hn, Backend.isNaive_of_native (b'.restamp_native d)] at hnaive
      cases b <;> cases b' <;> first | exact hb rfl | cases hnaive

/-! ## Unique columns -/

theorem Model.unique_column {m : Model} (h : cols ∈ m.uniques) (hk : k ∈ cols) :
    ∃ c ∈ m.columns, c.name = k ∧ c.onupdate = false := by
  have hall : ∀ cols ∈ m.uniques, ∀ k ∈ cols, ∃ c ∈ m.columns, c.name = k ∧ c.onupdate = false := by
    cases m <;> decide
  exact hall cols h k hk

/-- Another row of the receiver holds a unique value of the incoming version. -/
def Clashes (db : Database b) (v : Row b' m) : Prop :=
  violatesUnique db m (v.on b).val = true

instance (db : Database b) (v : Row b' m) : Decidable (Clashes db v) :=
  inferInstanceAs (Decidable (_ = _))

theorem violatesUnique_congr {db : Database b} {x y : Row b m} (hid : x.id = y.id)
    (h : ∀ c ∈ m.columns, c.onupdate = false → x.get c.name = y.get c.name) :
    violatesUnique db m x.val = violatesUnique db m y.val := by
  have hcols : ∀ cols ∈ m.uniques, ∀ k ∈ cols, x.val.get k = y.val.get k := by
    intro cols hcols k hk
    obtain ⟨c, hc, rfl, ho⟩ := Model.unique_column hcols hk
    exact h c hc ho
  have hid' : x.val.get "id" = y.val.get "id" := hid
  unfold violatesUnique
  rw [hid']
  congr 1
  funext r
  congr 1
  rw [Bool.eq_iff_iff, List.any_eq_true, List.any_eq_true]
  refine exists_congr fun cols => and_congr_right fun hmem => ?_
  rw [List.all_eq_true, List.all_eq_true]
  apply forall₂_congr
  intro k hk
  rw [hcols cols hmem k hk]

theorem get_over (v : Row b' m) (l : Row b m) (hc : c ∈ m.columns) (ho : c.onupdate = false) :
    (v.over now l).get c.name = (v.on b).get c.name := by
  unfold Row.over
  split
  · rw [Row.get_touch _ _ hc, ho]
    rfl
  · rfl

theorem id_over (v : Row b' m) (l : Row b m) : (v.over now l).id = v.id := by
  unfold Row.over
  split
  · rw [Row.id_touch, Row.id_on]
  · exact v.id_on b

theorem violatesUnique_over (db : Database b) (v : Row b' m) (l : Row b m) :
    violatesUnique db m (v.over now l).val = true ↔ Clashes db v := by
  rw [Clashes, violatesUnique_congr ((id_over v l).trans (v.id_on b).symm)
    fun c hc ho => get_over v l hc ho]

theorem clashes_put {db : Database b} {x : Row b m} {v : Row b' m} (h : x.id = v.id) :
    Clashes (db.put x) v ↔ Clashes db v := by
  have hrows : ∀ r : Row b m, r ∈ ((db.put x).table m).rows ↔
      r = x ∨ (r ∈ (db.table m).rows ∧ r.id ≠ x.id) := by
    intro r
    have htable : (db.put x).table m = (db.table m).upsert x := Function.update_self ..
    rw [htable]
    exact KeyedTable.mem_upsert_iff
  have hid : (v.on b).val.get "id" = v.id := v.id_on b
  unfold Clashes violatesUnique
  rw [List.any_eq_true, List.any_eq_true]
  constructor
  · rintro ⟨r, hr, hp⟩
    rcases (hrows r).1 hr with rfl | ⟨hr, _⟩
    · rw [hid, h] at hp
      simp at hp
    · exact ⟨r, hr, hp⟩
  · rintro ⟨r, hr, hp⟩
    refine ⟨r, (hrows r).2 (.inr ⟨hr, ?_⟩), hp⟩
    intro hrx
    rw [hid, hrx, h] at hp
    simp at hp

theorem find_mergeRow_carried {db db' : Database b'} {v : Row b m} (hrow : Carries row v)
    (hl : db.find m v.id = some l) (h : mergeRow m row db = .ok db') :
    db'.find m v.id = some (v.over db.now l) := by
  rw [mergeRow_carried hrow hl] at h
  split at h
  · rename_i hag
    cases h
    rw [hl, Row.over_of_agrees hag, Row.on_of_agrees hag]
  · split at h
    · cases h
    · cases h
      have hput := Database.find_put_self db (v.over db.now l)
      rwa [id_over] at hput

end ScottyCore
