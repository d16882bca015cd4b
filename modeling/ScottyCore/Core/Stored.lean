import ScottyCore.Core.Merge

namespace ScottyCore
open Python
set_option autoImplicit true

variable {b : Backend} {m : Model} {db db' : Database b} {l r : Row b m}

/-! ## The cells that a merge writes -/

theorem bindCell_ne_none (hv : v ≠ .none) (h : bindCell b c v = .ok w) : w ≠ .none := by
  cases v with
  | none => exact (hv rfl).elim
  | datetime d =>
    rw [bindCell] at h
    split at h
    · split at h
      · cases h
        intro hw
        cases hw
      · cases h
    · cases h
      intro hw
      cases hw
  | _ =>
    cases h
    intro hw
    cases hw

theorem Model.default_required {m : Model} (hc : c ∈ m.columns) (h : c.default ≠ .none) :
    c.nullable = false := by
  have hall : ∀ c ∈ m.columns, c.default ≠ .none → c.nullable = false := by
    cases m <;> decide
  exact hall c hc h

theorem Row.get_ne_none {r : Row b m} (hc : c ∈ m.columns) (h : c.nullable = false) :
    r.get c.name ≠ .none := by
  intro he
  have hh := (r.lookup hc).2
  rw [he, Column.holds, h] at hh
  cases hh

theorem updated_get (hc : c ∈ m.columns)
    (hr : r.val = updateCells now assigned l.val m.columns) :
    r.get c.name = updateCell now assigned l.val c := by
  rw [Row.get, Dict.get, hr, updateCells, lookup_map_columns _ hc m.columnNames_nodup]
  rfl

/-- A cell that differs from the stored one is set. -/
theorem updated_of_ne (hc : c ∈ m.columns) (hv : given.lookup c.name = some v)
    (hne : v.eq (l.get c.name) = false)
    (hset : bindRow b m (changed given l.val m.columns) = .ok assigned)
    (hr : r.val = updateCells now assigned l.val m.columns) :
    bindCell b c v = .ok (r.get c.name) ∧ assigned.lookup c.name = some (r.get c.name) := by
  have hch := lookup_changed given l.val hc
  rw [hv, Option.filter_some] at hch
  change _ = (if (!v.eq (l.get c.name)) = true then some v else none) at hch
  rw [hne] at hch
  rw [updated_get hc hr, updateCell]
  rcases lookup_mapColumns hset m.columnNames_nodup hc with ⟨hnone, _⟩ | ⟨w, x, hw, hx, hout⟩
  · rw [hch] at hnone
    cases hnone
  · rw [hch] at hw
    cases hw
    rw [hout]
    exact ⟨hx, rfl⟩

theorem assigned_eq_none (hc : c ∈ m.columns)
    (hsame : ∀ v, given.lookup c.name = some v → v.eq (l.get c.name) = true)
    (hset : bindRow b m (changed given l.val m.columns) = .ok assigned) :
    assigned.lookup c.name = none := by
  have hnone : (changed given l.val m.columns).lookup c.name = none := by
    rw [lookup_changed given l.val hc]
    cases hv : given.lookup c.name with
    | none => rfl
    | some v =>
      rw [Option.filter_some]
      change (if (!v.eq (l.get c.name)) = true then some v else none) = none
      rw [hsame v hv]
      rfl
  rcases lookup_mapColumns hset m.columnNames_nodup hc with ⟨_, hout⟩ | ⟨w, x, hw, _, _⟩
  · exact hout
  · rw [hnone] at hw
    cases hw

/-- Every other cell stays, but for what `onupdate` sets. -/
theorem updated_of_same (hc : c ∈ m.columns)
    (hsame : ∀ v, given.lookup c.name = some v → v.eq (l.get c.name) = true)
    (hset : bindRow b m (changed given l.val m.columns) = .ok assigned)
    (hr : r.val = updateCells now assigned l.val m.columns) :
    r.get c.name = if c.onupdate then .datetime now else l.get c.name := by
  rw [updated_get hc hr, updateCell, assigned_eq_none hc hsame hset]
  rfl

theorem inserted_get (hc : c ∈ m.columns) (hr : r.val = insertCells db m bound m.columns) :
    r.get c.name = insertCell db m bound c := by
  rw [Row.get, Dict.get, hr, insertCells, lookup_map_columns _ hc m.columnNames_nodup]
  rfl

theorem inserted_of_given (hc : c ∈ m.columns) (hv : given.lookup c.name = some v)
    (hne : v ≠ .none ∨ c.default = .none) (hbound : bindRow b m given = .ok bound)
    (hr : r.val = insertCells db m bound m.columns) :
    bindCell b c v = .ok (r.get c.name) := by
  rw [inserted_get hc hr, insertCell]
  rcases lookup_mapColumns hbound m.columnNames_nodup hc with ⟨hnone, _⟩ | ⟨w, x, hw, hx, hout⟩
  · rw [hv] at hnone
    cases hnone
  · rw [hv] at hw
    cases hw
    rw [hout]
    by_cases he : v = .none
    · subst he
      cases hx
      rw [hne.resolve_left fun h => h rfl]
      rfl
    · cases x with
      | none => exact (bindCell_ne_none he hx rfl).elim
      | _ => exact hx

/-! ## What a merge stores -/

/-- A given cell is stored: as it is, or as the database takes it. -/
def CellStored (b : Backend) (c : Column) (given stored : Val) : Prop :=
  given.eq stored = true ∨ bindCell b c given = .ok stored

/-- A stored row has every cell that is given. -/
def StoredAs (given : Dict) (r : Row b m) : Prop :=
  ∀ c ∈ m.columns, ∀ v, given.lookup c.name = some v → CellStored b c v (r.get c.name)

/-- A table holds a row of a payload. -/
def Holds (m : Model) (row : Dict) (db : Database b) : Prop :=
  ∃ given, hydrateRow m row = .ok given ∧ ∃ r ∈ (db.table m).rows, StoredAs given r

/-- Merging the row sends an UPDATE that leaves out the row's own timestamp, because it is the
stored one, and `onupdate` sets another one. -/
def Touches (m : Model) (row : Dict) (db : Database b) : Prop :=
  ∃ given l stamp, hydrateRow m row = .ok given ∧ db.find m (row.get "id") = some l ∧
    given.lookup "updated_at" = some stamp ∧ stamp.eq (l.get "updated_at") = true ∧
    changed given l.val m.columns ≠ [] ∧ ¬ CellStored b .updatedAt stamp (.datetime db.now)

/-- The row is new and gives nothing for a column that has a default. -/
def Defaulted (m : Model) (row : Dict) (db : Database b) : Prop :=
  db.find m (row.get "id") = none ∧
    ∃ c ∈ m.columns, row.lookup c.name = some .none ∧ c.default ≠ .none

theorem Database.find_none (db : Database b) (m : Model) : db.find m .none = none := by
  rw [Database.find, KeyedTable.find_eq_none_iff]
  intro r _
  exact r.id_ne_none

theorem Database.mem_put (db : Database b) (r : Row b m) : r ∈ ((db.put r).table m).rows :=
  KeyedTable.mem_of_find (db.find_put_self r)

theorem Model.updatedAt_of_onupdate {m : Model} (hc : c ∈ m.columns) (h : c.onupdate = true) :
    c = .updatedAt := by
  have hall : ∀ c ∈ m.columns, c.onupdate = true → c = .updatedAt := by
    cases m <;> decide
  exact hall c hc h

theorem eq_of_unchanged (h : changed given l.val m.columns = []) (hc : c ∈ m.columns)
    (hv : given.lookup c.name = some v) : v.eq (l.get c.name) = true := by
  have hch := lookup_changed given l.val hc
  rw [h, hv, Option.filter_some] at hch
  change none = (if (!v.eq (l.get c.name)) = true then some v else none) at hch
  cases he : v.eq (l.get c.name) with
  | true => rfl
  | false =>
    rw [he] at hch
    cases hch

theorem hydrateCell_none_iff : hydrateCell c v = .ok .none ↔ v = .none := by
  constructor
  · intro h
    cases v with
    | str s =>
      rw [hydrateCell] at h
      split at h
      · split at h
        · cases h
        · cases h
      · cases h
    | none => rfl
    | _ => cases h
  · rintro rfl
    rfl

theorem given_none_iff (hg : hydrateRow m row = .ok given) (hc : c ∈ m.columns) :
    given.lookup c.name = some .none ↔ row.lookup c.name = some .none := by
  rcases lookup_mapColumns hg m.columnNames_nodup hc with ⟨hw, hv⟩ | ⟨w, v, hw, hf, hv⟩
  · rw [hw, hv]
  · rw [hw, hv, Option.some.injEq, Option.some.injEq,
      ← hydrateCell_none_iff (c := c) (v := w), hf, Except.ok.injEq]

/-- The one row that can hold what an update was given is the updated one. -/
theorem eq_of_storedAs {s : Row b m} (hg : given.get "id" = r.id)
    (hr : r ∈ (db.table m).rows) (hs : s ∈ (db.table m).rows) (h : StoredAs given s) : s = r := by
  obtain ⟨c, hc, hid, ht, _, _⟩ := m.id_column
  have hsid : ∀ d, s.id ≠ .datetime d := by
    intro d he
    have hh := (s.lookup hc).2
    rw [hid] at hh
    change c.holds b s.id = true at hh
    rw [he, Column.holds, Bool.and_eq_true, decide_eq_true_eq] at hh
    exact ht hh.1
  have hv : given.lookup c.name = some r.id := by
    rw [hid]
    rw [Dict.get] at hg
    cases hl : List.lookup "id" given with
    | none =>
      rw [hl] at hg
      exact (r.id_ne_none hg.symm).elim
    | some v =>
      rw [hl] at hg
      exact congrArg some hg
  have hcell := h c hc _ hv
  rw [hid] at hcell
  have hid' : s.id = r.id := by
    rcases hcell with he | he
    · change r.id.eq s.id = true at he
      cases hri : r.id with
      | datetime d =>
        rw [hri] at he
        cases hsi : s.id with
        | datetime e => exact (hsid e hsi).elim
        | _ =>
          rw [hsi] at he
          cases he
      | _ =>
        rw [hri] at he
        exact (of_decide_eq_true he).symm
    · rw [bindCell_plain b ht] at he
      exact (Except.ok.inj he).symm
  exact KeyedTable.eq_of_mem hs hr hid'

theorem storedAs_updated (hnt : ¬ Touches m row db) (hg : hydrateRow m row = .ok given)
    (hl : db.find m (row.get "id") = some l) (hch : changed given l.val m.columns ≠ [])
    (hset : bindRow b m (changed given l.val m.columns) = .ok assigned)
    (hr : r.val = updateCells db.now assigned l.val m.columns) : StoredAs given r := by
  intro c hc v hv
  cases he : v.eq (l.get c.name) with
  | false => exact .inr (updated_of_ne hc hv he hset hr).1
  | true =>
    have hsame : ∀ w, given.lookup c.name = some w → w.eq (l.get c.name) = true := by
      intro w hw
      cases hv.symm.trans hw
      exact he
    rw [updated_of_same hc hsame hset hr]
    by_cases ho : c.onupdate = true
    · obtain rfl := Model.updatedAt_of_onupdate hc ho
      rw [if_pos ho]
      by_contra hcell
      exact hnt ⟨given, l, v, hg, hl, hv, he, hch, hcell⟩
    · rw [if_neg ho]
      exact .inl he

theorem storedAs_inserted (hnd : ¬ Defaulted m row db) (hg : hydrateRow m row = .ok given)
    (hnone : db.find m (row.get "id") = none) (hbound : bindRow b m given = .ok bound)
    (hr : r.val = insertCells db m bound m.columns) : StoredAs given r := by
  intro c hc v hv
  refine .inr (inserted_of_given hc hv ?_ hbound hr)
  by_contra hboth
  rw [not_or, not_not] at hboth
  obtain ⟨rfl, hdefault⟩ := hboth
  exact hnd ⟨hnone, c, hc, (given_none_iff hg hc).1 hv, hdefault⟩

/-- What was merged is held exactly when neither `onupdate` nor a default spoke over it. -/
theorem holds_mergeRow_iff (h : mergeRow m row db = .ok db') :
    Holds m row db' ↔ ¬ Touches m row db ∧ ¬ Defaulted m row db := by
  obtain ⟨given, hg, ⟨l, hl, hsame, rfl⟩ | ⟨l, r, assigned, hl, hch, hset, hr, hid, rfl⟩ |
    ⟨r, bound, hkey, hbound, hr, hnew, rfl⟩⟩ := mergeRow_inv h
  · refine iff_of_true ⟨given, hg, l, KeyedTable.mem_of_find hl, ?_⟩ ⟨?_, ?_⟩
    · intro c hc v hv
      exact .inl (eq_of_unchanged hsame hc hv)
    · rintro ⟨given', l', stamp, hg', hl', _, _, hch, _⟩
      cases hg.symm.trans hg'
      cases hl.symm.trans hl'
      exact hch hsame
    · rintro ⟨hnone, _⟩
      rw [hl] at hnone
      cases hnone
  · constructor
    · rintro ⟨given', hg', s, hs, hstored⟩
      cases hg.symm.trans hg'
      have hgid : given.get "id" = r.id := (get_id_mapColumns hg hydrateCell_id).trans hid.symm
      obtain rfl := eq_of_storedAs hgid (db.mem_put r) hs hstored
      refine ⟨?_, ?_⟩
      · rintro ⟨given', l', stamp, hg', hl', hstamp, he, _, hcell⟩
        cases hg.symm.trans hg'
        cases hl.symm.trans hl'
        have hmem : Column.updatedAt ∈ m.columns := by
          by_contra hnot
          have hname : Column.updatedAt.name ∉ m.columnNames := by
            intro hn
            obtain ⟨c, hc, hname⟩ := List.mem_map.1 hn
            obtain rfl := Model.updatedAt_of_onupdate hc ((Model.onupdate_iff hc).2 hname)
            exact hnot hc
          rw [show "updated_at" = Column.updatedAt.name from rfl,
            lookup_mapColumns_of_not_mem hg hname] at hstamp
          cases hstamp
        have hget := updated_of_same (c := .updatedAt) hmem (fun w hw => by
          cases hstamp.symm.trans hw
          exact he) hset hr
        have hsaid := hstored .updatedAt hmem stamp hstamp
        rw [hget] at hsaid
        exact hcell hsaid
      · rintro ⟨hnone, _⟩
        rw [hl] at hnone
        cases hnone
    · rintro ⟨hnt, _⟩
      exact ⟨given, hg, r, db.mem_put r, storedAs_updated hnt hg hl hch hset hr⟩
  · have hnone : db.find m (row.get "id") = none := by
      rcases hkey with hkey | hkey
      · rw [hkey, db.find_none]
      · exact hkey
    constructor
    · rintro ⟨given', hg', s, hs, hstored⟩
      cases hg.symm.trans hg'
      refine ⟨?_, ?_⟩
      · rintro ⟨_, l, _, _, hl, _⟩
        rw [hnone] at hl
        cases hl
      · rintro ⟨_, c, hc, hrow, hdefault⟩
        apply s.get_ne_none hc (Model.default_required hc hdefault)
        rcases hstored c hc .none ((given_none_iff hg hc).2 hrow) with he | he
        · exact (of_decide_eq_true he).symm
        · exact (Except.ok.inj he).symm
    · rintro ⟨_, hnd⟩
      exact ⟨given, hg, r, Database.mem_put _ r, storedAs_inserted hnd hg hnone hbound hr⟩

/-! ## Merging again -/

/-- A timestamp of the other kind than a database stores. -/
def Foreign (b : Backend) : Val → Prop
  | .datetime d => d.isNaive ≠ decide (b = .sqlite)
  | _ => False

theorem isNaive_add {d e : DateTime} (h : d.add delta = .ok e) : e.isNaive = d.isNaive := by
  rw [DateTime.add] at h
  split at h
  · rename_i he
    cases h
    rw [DateTime.isNaive, (DateTime.wallMicros_ofWallMicros he).2, DateTime.isNaive]
  · cases h

/-- A timestamp of the kind that a database stores is stored as the same moment. -/
theorem eq_of_bindDateTime {d e : DateTime} (h : b.bindDateTime d = .ok e)
    (hd : d.isNaive = decide (b = .sqlite)) : d.eq e = true := by
  cases b with
  | sqlite =>
    cases h
    have ho : d.utcoffset = none := Option.isNone_iff_eq_none.1 hd
    refine decide_eq_true ⟨hd, ?_⟩
    rw [DateTime.instant, ho]
    rfl
  | postgresql =>
    rw [Backend.bindDateTime] at h
    split at h
    · rename_i ho
      rw [DateTime.isNaive, ho] at hd
      cases hd
    · cases h
      exact DateTime.eq_self d
    · rename_i o _ ho
      split at h
      · rename_i e' he
        cases h
        refine decide_eq_true ⟨hd.trans (isNaive_add he).symm, ?_⟩
        rw [DateTime.instant_add he, DateTime.instant, ho, DateTime.instant]
        change _ = d.wallMicros - 0 * 1000000 + _
        rw [Option.getD_some]
        omega
      · cases h

theorem eq_of_bindCell (h : bindCell b c v = .ok w) (hv : ¬ Foreign b v) : v.eq w = true := by
  cases v with
  | datetime d =>
    rw [bindCell] at h
    split at h
    · split at h
      · rename_i hd
        cases h
        exact eq_of_bindDateTime hd (not_not.1 hv)
      · cases h
    · cases h
      exact Val.eq_self _
  | _ =>
    cases h
    exact Val.eq_self _

theorem ne_of_foreign {c : Column} (hv : Foreign b v) (hw : c.holds b w = true) :
    v.eq w = false := by
  cases v with
  | datetime d =>
    cases w with
    | datetime e =>
      rw [Column.holds, Bool.and_eq_true] at hw
      refine decide_eq_false fun h => hv ?_
      exact h.1.trans (Backend.isNaive_of_native hw.2)
    | _ => rfl
  | _ => cases hv

/-- Where a row gives a timestamp of the other kind, its `updated_at`, if the table has one, is of
the other kind too. -/
def Uniform (b : Backend) (m : Model) (given : Dict) : Prop :=
  (∃ c ∈ m.columns, ∃ v, given.lookup c.name = some v ∧ Foreign b v) →
    Column.updatedAt ∈ m.columns → ∃ stamp, given.lookup "updated_at" = some stamp ∧ Foreign b stamp

/-- Wherever the row's key holds what it does in a slot, merging the row changes nothing. -/
def Inert (m : Model) (row : Dict) (slot : Option (Row b m)) : Prop :=
  ∀ db db' : Database b, db.find m (row.get "id") = slot → mergeRow m row db = .ok db' → db' = db

theorem Database.put_of_find {db : Database b} (h : db.find m key = some r) : db.put r = db := by
  have hput : (db.table m).upsert r = db.table m :=
    KeyedTable.upsert_of_mem (KeyedTable.mem_of_find h)
  rw [put, hput, Function.update_eq_self]

theorem exists_changed (h : changed given l.val m.columns ≠ []) :
    ∃ c ∈ m.columns, ∃ v, given.lookup c.name = some v ∧ v.eq (l.get c.name) = false := by
  by_contra hno
  apply h
  rw [changed, List.filterMap_eq_nil_iff]
  intro c hc
  cases hv : given.lookup c.name with
  | none => rfl
  | some v =>
    have he : v.eq (l.val.get c.name) = true := by
      by_contra hne
      exact hno ⟨c, hc, v, hv, Bool.eq_false_iff.2 hne⟩
    rw [Option.filter_some, he]
    rfl

/-- A stored row gives back what was given, or the column takes no null. -/
def GivesBack (given : Dict) (r : Row b m) : Prop :=
  ∀ c ∈ m.columns, ∀ v, given.lookup c.name = some v →
    CellStored b c v (r.get c.name) ∨ (v = .none ∧ c.nullable = false)

/-- What was kept is written again as it is. -/
theorem inert_of_kept (hg : hydrateRow m row = .ok given) (hk : GivesBack given r)
    (hu : Uniform b m given) : Inert m row (some r) := by
  intro db db' hslot h
  obtain ⟨given', hg', ⟨l, hl, _, rfl⟩ | ⟨l, s, assigned, hl, hch, hset, hs, _, rfl⟩ |
    ⟨_, _, hkey, _⟩⟩ := mergeRow_inv h
  · rfl
  · cases hg.symm.trans hg'
    cases hslot.symm.trans hl
    have hcell : ∀ c ∈ m.columns, ∀ v, given.lookup c.name = some v →
        v.eq (r.get c.name) = false → s.get c.name = r.get c.name ∧ Foreign b v := by
      intro c hc v hv hne
      have hbind := (updated_of_ne hc hv hne hset hs).1
      rcases hk c hc v hv with (he | hr) | ⟨rfl, hnull⟩
      · rw [hne] at he
        cases he
      · refine ⟨Except.ok.inj (hbind.symm.trans hr), ?_⟩
        by_contra hforeign
        rw [eq_of_bindCell hr hforeign] at hne
        cases hne
      · exact (s.get_ne_none hc hnull (Except.ok.inj hbind).symm).elim
    have hsame : s = r := by
      apply Row.ext
      intro c hc
      by_cases hall : ∀ v, given.lookup c.name = some v → v.eq (r.get c.name) = true
      · rw [updated_of_same hc hall hset hs]
        by_cases ho : c.onupdate = true
        · obtain rfl := Model.updatedAt_of_onupdate hc ho
          obtain ⟨c', hc', v, hv, hne⟩ := exists_changed hch
          obtain ⟨stamp, hstamp, hforeign⟩ := hu ⟨c', hc', v, hv, (hcell c' hc' v hv hne).2⟩ hc
          have hne := ne_of_foreign hforeign (r.lookup hc).2
          rw [hall stamp hstamp] at hne
          cases hne
        · rw [if_neg ho]
      · simp only [not_forall] at hall
        obtain ⟨v, hv, hne⟩ := hall
        exact (hcell c hc v hv (Bool.eq_false_iff.2 hne)).1
    rw [hsame]
    exact Database.put_of_find hslot
  · rcases hkey with hkey | hkey
    · rw [hkey, db.find_none] at hslot
      cases hslot
    · cases hslot.symm.trans hkey

/-- An INSERT keeps the id that it is given. -/
theorem inserted_id (hid : row.get "id" ≠ .none) (hg : hydrateRow m row = .ok given)
    (hbound : bindRow b m given = .ok bound) (hr : r.val = insertCells db m bound m.columns) :
    r.id = row.get "id" := by
  obtain ⟨c, hc, hname, ht, _, _⟩ := m.id_column
  have hv : given.lookup c.name = some (row.get "id") := by
    have hget := get_id_mapColumns hg hydrateCell_id
    rw [Dict.get] at hget
    rw [hname]
    cases hl : List.lookup "id" given with
    | none =>
      rw [hl] at hget
      exact (hid hget.symm).elim
    | some v =>
      rw [hl] at hget
      exact congrArg some hget
  have hbind := inserted_of_given hc hv (.inl hid) hbound hr
  rw [bindCell_plain b ht, hname] at hbind
  exact (Except.ok.inj hbind).symm

/-- A row with an id is merged under that id, and nowhere else. -/
theorem find_mergeRow (h : mergeRow m row db = .ok db') (hid : row.get "id" ≠ .none) :
    (∃ r, db'.find m (row.get "id") = some r) ∧
      ∀ m' key, m' ≠ m ∨ key ≠ row.get "id" → db'.find m' key = db.find m' key := by
  obtain ⟨given, hg, ⟨l, hl, _, rfl⟩ | ⟨l, r, _, _, _, _, _, hrid, rfl⟩ |
    ⟨r, bound, _, hbound, hr, _, rfl⟩⟩ := mergeRow_inv h
  · exact ⟨⟨l, hl⟩, fun _ _ _ => rfl⟩
  · refine ⟨⟨r, hrid ▸ db.find_put_self r⟩, fun m' key hne => ?_⟩
    exact db.find_put_of_ne r (by rwa [hrid])
  · have hrid := inserted_id hid hg hbound hr
    refine ⟨⟨r, hrid ▸ Database.find_put_self _ r⟩, fun m' key hne => ?_⟩
    exact Database.find_put_of_ne _ r (by rwa [hrid])

/-- Once merged, a row with an id merges without effect, unless `onupdate` touched it. -/
theorem inert_of_mergeRow (h : mergeRow m row db = .ok db') (hid : row.get "id" ≠ .none)
    (hg : hydrateRow m row = .ok given) (hnt : ¬ Touches m row db) (hu : Uniform b m given) :
    ∃ r, db'.find m (row.get "id") = some r ∧ GivesBack given r ∧ Inert m row (some r) := by
  obtain ⟨given', hg', ⟨l, hl, hsame, rfl⟩ | ⟨l, r, assigned, hl, hch, hset, hr, hrid, rfl⟩ |
    ⟨r, bound, hkey, hbound, hr, _, rfl⟩⟩ := mergeRow_inv h
  · cases hg.symm.trans hg'
    have hk : GivesBack given l := fun c hc v hv => .inl (.inl (eq_of_unchanged hsame hc hv))
    exact ⟨l, hl, hk, inert_of_kept hg hk hu⟩
  · cases hg.symm.trans hg'
    have hk : GivesBack given r := fun c hc v hv =>
      .inl (storedAs_updated hnt hg hl hch hset hr c hc v hv)
    exact ⟨r, hrid ▸ db.find_put_self r, hk, inert_of_kept hg hk hu⟩
  · cases hg.symm.trans hg'
    have hk : GivesBack given r := by
      intro c hc v hv
      by_cases hdefault : v ≠ .none ∨ c.default = .none
      · exact .inl (.inr (inserted_of_given hc hv hdefault hbound hr))
      · rw [not_or, not_not] at hdefault
        exact .inr ⟨hdefault.1, Model.default_required hc hdefault.2⟩
    have hrid := inserted_id hid hg hbound hr
    exact ⟨r, hrid ▸ Database.find_put_self _ r, hk, inert_of_kept hg hk hu⟩

end ScottyCore
