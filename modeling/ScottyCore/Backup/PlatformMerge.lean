import ScottyCore.Backup.Isolation
import ScottyCore.Core.Stored

namespace ScottyCore
open Python
set_option autoImplicit true

variable {b b' : Backend} {m : Model}

/-! ## Two stores -/

/-- The rows that a platform export carries. -/
def platformRows (db : Database b) (m : Model) : List (Row b m) := (db.select m).filter platformRow

/-- Two rows hold the same values in a group of unique columns. Nulls are never the same. -/
def Row.conflicts (v : Row b m) (l : Row b' m) : Prop :=
  ∃ cols ∈ m.uniques, ∀ k ∈ cols, v.get k ≠ .none ∧ v.get k = l.get k

instance (v : Row b m) (l : Row b' m) : Decidable (v.conflicts l) :=
  inferInstanceAs (Decidable (∃ cols ∈ m.uniques, ∀ k ∈ cols, _))

/-- The rows of a store respect its unique constraints. -/
def Database.Consistent (db : Database b) : Prop :=
  ∀ m, ∀ v ∈ db.select m, ∀ w ∈ db.select m, v.id ≠ w.id → ¬ v.conflicts w

/-- No row clashes with a row of another id. -/
def Compatible (S : Database b) (S' : Database b') : Prop :=
  ∀ m, ∀ v ∈ S.select m, ∀ l ∈ S'.select m, v.id ≠ l.id → ¬ v.conflicts l

/-- A merge writes the columns that it is given and no others: `onupdate` would stamp a row anew
that meets another version of itself with the same `updated_at`. -/
def WritesJustGiven (S : Database b) (S' : Database b') : Prop :=
  ∀ m, m.timestamped = true → ∀ v ∈ platformRows S m, ∀ l ∈ S'.select m, v.id = l.id →
    (v.get "updated_at").eq (l.get "updated_at") = true → v.agrees l = true

/-- The rows of the source are stored, and nothing else is changed. -/
structure RestoredOver (S : Database b) (S' db : Database b') : Prop where
  stored : ∀ m, ∀ v ∈ platformRows S m, db.find m v.id = some (v.on b')
  kept : ∀ m key, (∀ v ∈ platformRows S m, v.id ≠ key) → db.find m key = S'.find m key
  files : db.uploads = S'.uploads

/-! ## One row -/

theorem Model.unique_string {m : Model} (h : cols ∈ m.uniques) (hk : k ∈ cols) :
    ∃ c ∈ m.columns, c.name = k ∧ c.type ≠ .dateTime := by
  have hall : ∀ cols ∈ m.uniques, ∀ k ∈ cols, ∃ c ∈ m.columns, c.name = k ∧ c.type ≠ .dateTime := by
    cases m <;> decide
  exact hall cols h k hk

theorem get_on_unique (b' : Backend) (v : Row b m) (h : cols ∈ m.uniques) (hk : k ∈ cols) :
    (v.on b').get k = v.get k := by
  obtain ⟨c, hc, rfl, ht⟩ := Model.unique_string h hk
  rw [Row.get_on b' v hc]
  obtain ⟨-, hh⟩ := v.lookup hc
  cases hv : v.get c.name with
  | datetime d =>
    rw [hv, Column.holds, Bool.and_eq_true, decide_eq_true_eq] at hh
    exact (ht hh.1).elim
  | _ => rfl

theorem conflicts_on {v : Row b m} {w : Row b m} (h : v.conflicts (w.on b')) : v.conflicts w := by
  obtain ⟨cols, hcols, hall⟩ := h
  refine ⟨cols, hcols, fun k hk => ?_⟩
  rw [← get_on_unique b' w hcols hk]
  exact hall k hk

theorem clashes_iff {db : Database b'} {v : Row b m} :
    Clashes db v ↔ ∃ r ∈ db.select m, v.id ≠ r.id ∧ v.conflicts r := by
  have hgroup : ∀ r : Row b' m, (m.uniques.any fun cols => cols.all fun k =>
      decide ((v.on b').get k ≠ .none) && ((v.on b').get k).eq (r.get k)) = true ↔
        v.conflicts r := by
    intro r
    rw [List.any_eq_true]
    apply exists_congr
    intro cols
    apply and_congr_right
    intro hcols
    rw [List.all_eq_true]
    apply forall₂_congr
    intro k hk
    obtain ⟨c, hc, rfl, -⟩ := Model.unique_string hcols hk
    have hon := get_on_unique b' v hcols hk
    rw [Bool.and_eq_true, decide_eq_true_eq, hon]
    apply and_congr_right
    intro _
    constructor
    · intro he
      rw [← restampCell_of_eq (v.lookup hc).2 (r.lookup hc).2 he, ← Row.get_on b' v hc, hon]
    · intro he
      rw [he]
      exact Val.eq_self _
  unfold Clashes violatesUnique
  rw [List.any_eq_true]
  apply exists_congr
  intro r
  apply and_congr_right
  intro _
  rw [Bool.and_eq_true, decide_eq_true_eq]
  apply and_congr _ (hgroup r)
  rw [show (v.on b').val.get "id" = v.id from v.id_on b', ne_comm]

theorem over_eq_on {v : Row b m} {l : Row b' m} (h : m.timestamped = true →
      (v.get "updated_at").eq (l.get "updated_at") = true → v.agrees l = true) :
    v.over now l = v.on b' := by
  unfold Row.over
  split
  · rename_i htie
    cases ht : m.timestamped with
    | false => exact touch_of_unstamped ht _
    | true =>
      rw [h ht htie.1] at htie
      cases htie.2
  · rfl

/-- An INSERT writes the cells of the version that it is given. -/
theorem insertCells_on (db : Database b') (v : Row b m) :
    insertCells db m (v.on b').val m.columns = (v.on b').val := by
  conv => rhs; rw [Row.val_eq]
  apply List.map_congr_left
  intro c hc
  obtain ⟨hv, -⟩ := (v.on b').lookup hc
  rw [insertCell, hv]
  cases hcell : (v.on b').get c.name with
  | none =>
    have hdefault : c.default = .none := by
      by_contra hne
      exact Row.get_ne_none hc (Model.default_required hc hne) hcell
    rw [hdefault]
    rfl
  | _ => rfl

theorem bindRow_carried (b' : Backend) (v : Row b m) :
    bindRow b' m v.val = .ok (v.on b').val := by
  apply mapColumns_of_lookup (fits_names (v.on b').property)
  intro c w hw
  obtain ⟨hw', -⟩ := zip_mem_of_fits (v.on b').property m.columnNames_nodup hw
  have hc := (List.of_mem_zip hw).1
  obtain ⟨hlook, hh⟩ := v.lookup hc
  refine ⟨v.get c.name, hlook, ?_⟩
  have hon := ((v.on b').lookup hc).1
  rw [Row.get_on b' v hc, hw'] at hon
  rw [Option.some.inj hon]
  exact bindCell_of_holds hh b'

/-- Merging a version that no row is stored under. -/
theorem mergeRow_fresh {db : Database b'} {v : Row b m} (hrow : Carries row v)
    (hnone : db.find m v.id = none) (hc : ¬ Clashes db v) :
    mergeRow m row db = .ok (Database.put { db with drawn := db.drawn + 1 } (v.on b')) := by
  have hkey : (if v.val.get "id" = .none then none else db.find m (v.val.get "id")) = none :=
    (if_neg v.id_ne_none).trans hnone
  have hid : (v.on b').val.get "id" = v.id := v.id_on b'
  have hclash : violatesUnique { db with drawn := db.drawn + 1 } m (v.on b').val = false :=
    Bool.eq_false_iff.2 hc
  simp only [mergeRow, hrow.hydrate, bind, Except.bind]
  rw [hkey]
  simp only [bindRow_carried]
  simp only [insertRow, insertCells_on, hid, hnone, Option.isSome_none, Bool.false_eq_true,
    if_false, flushRow]
  rw [dif_pos (v.on b').property, hclash]
  rfl

/-! ## Along a restore -/

/-- Every row of the source can be merged, and is stored as the source has it. -/
structure Mergeable (S : Database b) (db : Database b') : Prop where
  noClash : ∀ m, ∀ v ∈ platformRows S m, ¬ Clashes db v
  asGiven : ∀ m, ∀ v ∈ platformRows S m, ∀ l, db.find m v.id = some l → v.over db.now l = v.on b'

/-- All rows are as they were, or as the source has them. -/
structure Overlaid (S : Database b) (db db₁ : Database b') : Prop where
  rows : ∀ m key, db₁.find m key = db.find m key ∨
    ∃ v ∈ platformRows S m, v.id = key ∧ db₁.find m key = some (v.on b')
  files : db₁.uploads = db.uploads

section

variable {S : Database b} {S' db db₁ db₂ : Database b'}

theorem mem_of_platformRows {v : Row b m} (h : v ∈ platformRows S m) : v ∈ S.select m :=
  (List.mem_filter.1 h).1

theorem eq_of_platformRows {v w : Row b m} (hv : v ∈ platformRows S m) (hw : w ∈ platformRows S m)
    (h : v.id = w.id) : v = w :=
  KeyedTable.eq_of_mem (t := S.table m) (mem_of_platformRows hv) (mem_of_platformRows hw) h

theorem Overlaid.refl (S : Database b) (db : Database b') : Overlaid S db db :=
  ⟨fun _ _ => .inl rfl, rfl⟩

theorem Overlaid.trans (h : Overlaid S db db₁) (h' : Overlaid S db₁ db₂) : Overlaid S db db₂ := by
  refine ⟨fun m key => ?_, h'.files.trans h.files⟩
  rcases h'.rows m key with hsame | hnew
  · rw [hsame]
    exact h.rows m key
  · exact .inr hnew

/-- What is stored as the source has it stays so. -/
theorem Overlaid.stored (h : Overlaid S db db₁) {v : Row b m} (hv : v ∈ platformRows S m)
    (hl : db.find m v.id = some (v.on b')) : db₁.find m v.id = some (v.on b') := by
  rcases h.rows m v.id with hsame | ⟨w, hw, hid, hnew⟩
  · rw [hsame, hl]
  · rw [hnew, eq_of_platformRows hw hv hid]

theorem mem_put_iff {r : Row b' m} {x : Row b' m} :
    r ∈ (db.put x).select m ↔ r = x ∨ (r ∈ db.select m ∧ r.id ≠ x.id) := by
  have htable : (db.put x).table m = (db.table m).upsert x := Function.update_self ..
  rw [Database.select, htable]
  exact KeyedTable.mem_upsert_iff

theorem select_put_of_ne {x : Row b' m} {m' : Model} (h : m' ≠ m) :
    (db.put x).select m' = db.select m' :=
  congrArg KeyedTable.rows (Database.table_put_of_ne db x h)

theorem Mergeable.put (hS : S.Consistent) (h : Mergeable S db) {w : Row b m}
    (hw : w ∈ platformRows S m) (n : Nat) :
    Mergeable S (Database.put { db with drawn := n } (w.on b')) := by
  constructor
  · intro m' v hv hclash
    obtain ⟨r, hr, hid, hconf⟩ := clashes_iff.1 hclash
    by_cases hm : m' = m
    · subst hm
      rcases mem_put_iff.1 hr with rfl | ⟨hr, -⟩
      · rw [Row.id_on] at hid
        exact hS m' v (mem_of_platformRows hv) w (mem_of_platformRows hw) hid (conflicts_on hconf)
      · exact h.noClash m' v hv (clashes_iff.2 ⟨r, hr, hid, hconf⟩)
    · rw [select_put_of_ne hm] at hr
      exact h.noClash m' v hv (clashes_iff.2 ⟨r, hr, hid, hconf⟩)
  · intro m' v hv l hl
    by_cases hkey : m' ≠ m ∨ v.id ≠ (w.on b').id
    · rw [Database.find_put_of_ne _ _ hkey] at hl
      exact h.asGiven m' v hv l hl
    · rw [not_or, not_not, not_not] at hkey
      obtain ⟨rfl, hid⟩ := hkey
      rw [Row.id_on] at hid
      obtain rfl := eq_of_platformRows hv hw hid
      rw [← Row.id_on b', Database.find_put_self] at hl
      cases hl
      exact over_on v

theorem Overlaid.put {w : Row b m} (hw : w ∈ platformRows S m) (db : Database b') (n : Nat) :
    Overlaid S db (Database.put { db with drawn := n } (w.on b')) := by
  refine ⟨fun m' key => ?_, rfl⟩
  by_cases hkey : m' ≠ m ∨ key ≠ (w.on b').id
  · exact .inl (Database.find_put_of_ne _ _ hkey)
  · rw [not_or, not_not, not_not] at hkey
    obtain ⟨rfl, rfl⟩ := hkey
    exact .inr ⟨w, hw, (Row.id_on b' w).symm, Database.find_put_self _ _⟩

/-! ## The merges -/

/-- Merging a row of the source puts it into the store. -/
theorem Mergeable.mergeRow (h : Mergeable S db) {v : Row b m} (hv : v ∈ platformRows S m)
    (hrow : Carries row v) :
    ∃ n, mergeRow m row db = .ok (Database.put { db with drawn := n } (v.on b')) := by
  cases hl : db.find m v.id with
  | none => exact ⟨_, mergeRow_fresh hrow hl (h.noClash m v hv)⟩
  | some l =>
    refine ⟨db.drawn, ?_⟩
    have hclash : violatesUnique db m (v.over db.now l).val = false :=
      Bool.eq_false_iff.2 fun hc => h.noClash m v hv ((violatesUnique_over db v l).1 hc)
    rw [mergeRow_carried hrow hl, hclash, h.asGiven m v hv l hl]
    split
    · rename_i ha
      rw [Row.on_of_agrees ha]
      exact congrArg Except.ok (Database.put_of_find hl).symm
    · rfl

theorem Mergeable.mergeRow_stored (h : Mergeable S db) {v : Row b m} (hv : v ∈ platformRows S m)
    (hrow : Carries row v) (hl : db.find m v.id = some (v.on b')) :
    ScottyCore.mergeRow m row db = .ok db := by
  have hclash : violatesUnique db m (v.over db.now (v.on b')).val = false :=
    Bool.eq_false_iff.2 fun hc => h.noClash m v hv ((violatesUnique_over db v _).1 hc)
  rw [mergeRow_carried hrow hl, hclash, over_on, Database.put_of_find hl]
  exact ite_self _

/-- The merges of JSON rows, each into its own table. -/
def mergeEach (ps : List (Model × Dict)) (db : Database b) : Except Exc (Database b) :=
  ps.foldlM (fun db p => ScottyCore.mergeRow p.1 p.2 db) db

/-- The JSON row carries a row that the source exports. -/
def Carried (S : Database b) (p : Model × Dict) : Prop :=
  ∃ v ∈ platformRows S p.1, Carries p.2 v

theorem Mergeable.mergeEach (hS : S.Consistent) (h : Mergeable S db) (hps : ∀ p ∈ ps, Carried S p) :
    ∃ db₁, mergeEach ps db = .ok db₁ ∧ Mergeable S db₁ ∧ Overlaid S db db₁ ∧
      ∀ p ∈ ps, ∀ v ∈ platformRows S p.1, Carries p.2 v → db₁.find p.1 v.id = some (v.on b') := by
  induction ps generalizing db with
  | nil => exact ⟨db, rfl, h, .refl S db, fun _ hp => nomatch hp⟩
  | cons p ps ih =>
    obtain ⟨v, hv, hrow⟩ := hps p List.mem_cons_self
    obtain ⟨n, hmerge⟩ := h.mergeRow hv hrow
    obtain ⟨db₁, hall, hready, hover, hstored⟩ :=
      ih (h.put hS hv n) fun q hq => hps q (List.mem_cons_of_mem _ hq)
    refine ⟨db₁, ?_, hready, (Overlaid.put hv db n).trans hover, ?_⟩
    · exact bind_eq_ok.2 ⟨_, hmerge, hall⟩
    · intro q hq w hw hroww
      rcases List.mem_cons.1 hq with rfl | hq
      · apply hover.stored hw
        have hsame : v = w := eq_of_platformRows hv hw (hrow.id.symm.trans hroww.id)
        rw [← hsame, ← Row.id_on b', Database.find_put_self]
      · exact hstored q hq w hw hroww

theorem Mergeable.mergeEach_stored (h : Mergeable S db) (hps : ∀ p ∈ ps, Carried S p)
    (hstored : ∀ m, ∀ v ∈ platformRows S m, db.find m v.id = some (v.on b')) :
    ScottyCore.mergeEach ps db = .ok db := by
  induction ps with
  | nil => rfl
  | cons p ps ih =>
    obtain ⟨v, hv, hrow⟩ := hps p List.mem_cons_self
    apply bind_eq_ok.2
    exact ⟨db, h.mergeRow_stored hv hrow (hstored _ v hv),
      ih fun q hq => hps q (List.mem_cons_of_mem _ hq)⟩

end

end ScottyCore
