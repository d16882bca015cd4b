import ScottyCore.Backup.Builtins
import ScottyCore.Backup.TenantIdentity

namespace ScottyCore
open Python
set_option autoImplicit true

variable {b : Backend} {m : Model}

/-! ## What belongs to a tenant -/

/-- The tenant that a row of the given cells names as its own. -/
def ownerBy (m : Model) (get : String → Val) : Option Val :=
  match m with
  | .setting => if get "scope" = .str "tenant" then some (get "scope_id") else none
  | .item | .auditLog => some (get "tenant_id")
  | .user | .role | .userTenantRole | .tenant => none

def tenantOf (slug : String) (db : Database b) : Option Val :=
  ((db.select .tenant).find? fun t => t.get "slug" = .str slug).map Row.id

/-- Cells that name a tenant, if there is one. -/
def ownedBy (tenant : Option Val) (m : Model) (get : String → Val) : Bool :=
  tenant.isSome && ownerBy m get = tenant

/-- The uploads of a tenant are below the directory of its slug. -/
def ownedFile (tenant : Option Val) (slug : String) (path : List String) : Bool :=
  tenant.isSome && path.head? = some slug && 1 < path.length

def Database.foreign (db : Database b) (tenant : Option Val) (m : Model) (key : Val) :
    Option (Row b m) :=
  (db.find m key).filter fun r => !ownedBy tenant m r.get

/-- What belongs to others, or to nobody, is as it was: nothing changed, nothing new. -/
structure KeepsForeign (tenant : Option Val) (slug : String) (db db' : Database b) : Prop where
  rows : ∀ m key, db'.foreign tenant m key = db.foreign tenant m key
  files : ∀ path, ownedFile tenant slug path = false →
    db'.uploads.find path = db.uploads.find path

theorem KeepsForeign.refl (db : Database b) : KeepsForeign tenant slug db db :=
  ⟨fun _ _ => rfl, fun _ _ => rfl⟩

theorem KeepsForeign.trans {db₁ db₂ db₃ : Database b} (h : KeepsForeign tenant slug db₁ db₂)
    (h' : KeepsForeign tenant slug db₂ db₃) : KeepsForeign tenant slug db₁ db₃ :=
  ⟨fun m key => (h'.rows m key).trans (h.rows m key),
    fun path hp => (h'.files path hp).trans (h.files path hp)⟩

/-! ## One merge -/

/-- A row of a payload and the row that it hits: both are the tenant's, or merging leaves the
other as it is. A row that hits none gives itself to the tenant. -/
def RowConfined (tenant : Option Val) (m : Model) (row : Dict) (db : Database b) : Prop :=
  match db.find m (row.get "id") with
  | some l =>
    (ownedBy tenant m l.get = true ∧
      ownedBy tenant m (fun name => row.getD name (l.get name)) = true) ∨
    ∀ db', mergeRow m row db = .ok db' → db'.find m l.id = some l
  | none => ownedBy tenant m row.get = true

theorem ownerBy_congr {get get' : String → Val}
    (h : ∀ c ∈ m.columns, c.Plain → get c.name = get' c.name) : ownerBy m get = ownerBy m get' := by
  have hrequired : ∀ name, .required name .string ∈ m.columns → get name = get' name :=
    fun _ hc => h _ hc ⟨nofun, rfl, rfl⟩
  have hoptional : ∀ name, .optional name .string ∈ m.columns → get name = get' name :=
    fun _ hc => h _ hc ⟨nofun, rfl, rfl⟩
  cases m with
  | setting =>
    rw [ownerBy, ownerBy, hrequired "scope" (by decide), hoptional "scope_id" (by decide)]
  | item => exact congrArg some (hrequired "tenant_id" (by decide))
  | auditLog => exact congrArg some (hoptional "tenant_id" (by decide))
  | _ => rfl

theorem ownedBy_congr {get get' : String → Val}
    (h : ∀ c ∈ m.columns, c.Plain → get c.name = get' c.name) :
    ownedBy tenant m get = ownedBy tenant m get' := by
  rw [ownedBy, ownedBy, ownerBy_congr h]

theorem foreign_put {db : Database b} (r : Row b m) (m' : Model) (key : Val)
    (h : m' ≠ m ∨ key ≠ r.id) : (db.put r).foreign tenant m' key = db.foreign tenant m' key := by
  rw [Database.foreign, Database.find_put_of_ne _ _ h, Database.foreign]

theorem keepsForeign_put_iff {db : Database b} {r : Row b m} :
    KeepsForeign tenant slug db (db.put r) ↔
      (db.put r).foreign tenant m r.id = db.foreign tenant m r.id := by
  constructor
  · exact fun h => h.rows m r.id
  · refine fun h => ⟨fun m' key => ?_, fun _ _ => rfl⟩
    by_cases hk : m' ≠ m ∨ key ≠ r.id
    · exact foreign_put r m' key hk
    · rw [not_or, not_not, not_not] at hk
      obtain ⟨rfl, rfl⟩ := hk
      exact h

theorem filter_some_eq_iff {p : α → Bool} {x y : α} :
    (some x).filter p = (some y).filter p ↔ (p x = false ∧ p y = false) ∨ x = y := by
  rw [Option.filter_some, Option.filter_some]
  constructor
  · intro h
    cases hx : p x with
    | true =>
      rw [if_pos hx] at h
      split at h
      · exact .inr (Option.some.inj h)
      · cases h
    | false =>
      rw [if_neg (ne_true_of_eq_false hx)] at h
      split at h
      · cases h
      · rename_i hy
        exact .inl ⟨rfl, Bool.eq_false_of_not_eq_true hy⟩
  · rintro (⟨hx, hy⟩ | rfl)
    · rw [if_neg (ne_true_of_eq_false hx), if_neg (ne_true_of_eq_false hy)]
    · rfl

/-- An UPDATE of `l` to `r`. -/
theorem keepsForeign_update_iff {db : Database b} {l r : Row b m}
    (hl : db.find m r.id = some l) :
    KeepsForeign tenant slug db (db.put r) ↔
      (ownedBy tenant m l.get = true ∧ ownedBy tenant m r.get = true) ∨ r = l := by
  rw [keepsForeign_put_iff, Database.foreign, Database.find_put_self, Database.foreign, hl,
    filter_some_eq_iff, Bool.not_eq_false', Bool.not_eq_false', and_comm]

/-- An INSERT of `r`. -/
theorem keepsForeign_insert_iff {db : Database b} {r : Row b m} (hnew : db.find m r.id = none) :
    KeepsForeign tenant slug db (db.put r) ↔ ownedBy tenant m r.get = true := by
  rw [keepsForeign_put_iff, Database.foreign, Database.find_put_self, Database.foreign, hnew,
    Option.filter_none, Option.filter_some]
  cases ownedBy tenant m r.get with
  | true => simp
  | false => simp

theorem mergeRow_keepsForeign_iff {db db' : Database b} (h : mergeRow m row db = .ok db') :
    KeepsForeign tenant slug db db' ↔ RowConfined tenant m row db := by
  unfold RowConfined
  rcases mergeRow_written h with ⟨l, hl, rfl⟩ | ⟨l, r, hl, hid, hcells, rfl⟩ |
    ⟨r, hkey, hnew, hcells, rfl⟩
  · rw [hl]
    refine ⟨fun _ => .inr fun db' h' => ?_, fun _ => .refl _⟩
    cases h.symm.trans h'
    exact (Database.id_of_find hl).symm ▸ hl
  · have hlid : l.id = r.id := (Database.id_of_find hl).trans hid.symm
    rw [← hid] at hl
    have howned : ownedBy tenant m (fun name => row.getD name (l.get name)) =
        ownedBy tenant m r.get := (ownedBy_congr hcells).symm
    have hleft : (∀ db', mergeRow m row db = .ok db' → db'.find m l.id = some l) ↔ r = l := by
      constructor
      · intro hall
        have hfind := hall _ h
        rw [hlid, Database.find_put_self] at hfind
        exact Option.some.inj hfind
      · rintro rfl db' h'
        cases h.symm.trans h'
        exact Database.find_put_self _ _
    rw [keepsForeign_update_iff hl, ← hid, hl]
    simp only [howned, hleft]
  · have hnone : db.find m (row.get "id") = none := by
      refine hkey.elim (fun hid => ?_) id
      rw [hid]
      cases hfind : db.find m .none with
      | none => rfl
      | some l => exact (l.id_ne_none (Database.id_of_find hfind)).elim
    have howned : ownedBy tenant m r.get = ownedBy tenant m row.get := ownedBy_congr hcells
    have hdrawn : KeepsForeign tenant slug db (Database.put { db with drawn := db.drawn + 1 } r) ↔
        KeepsForeign tenant slug { db with drawn := db.drawn + 1 }
          (Database.put { db with drawn := db.drawn + 1 } r) :=
      ⟨fun hk => ⟨hk.rows, hk.files⟩, fun hk => ⟨hk.rows, hk.files⟩⟩
    have hnew' : Database.find { db with drawn := db.drawn + 1 } m r.id = none := hnew
    rw [hnone, hdrawn, keepsForeign_insert_iff hnew', howned]

/-! ## The merges of one transaction -/

def mergeAll (m : Model) (rows : List Dict) (db : Database b) : Except Exc (Database b) :=
  rows.foldlM (fun db row => mergeRow m row db) db

theorem upsertRows_eq (m : Model) (rows : List Dict) (db : Database b) :
    upsertRows m rows db = (mergeAll m rows db).map fun db => (rows.length, db) := by
  have hfrom : ∀ n db, rows.foldlM (fun (acc : Nat × Database b) row => do
      let db ← mergeRow m row acc.2
      Except.ok (acc.1 + 1, db)) (n, db) =
      (mergeAll m rows db).map fun (db : Database b) => (n + rows.length, db) := by
    induction rows with
    | nil => exact fun _ _ => rfl
    | cons row rows ih =>
      intro n db
      rw [mergeAll, List.foldlM_cons, List.foldlM_cons, bind_assoc]
      cases mergeRow m row db with
      | error e => rfl
      | ok db' =>
        apply (ih (n + 1) db').trans
        rw [List.length_cons, Nat.add_right_comm, Nat.add_assoc]
        rfl
  apply (hfrom 0 db).trans
  rw [Nat.zero_add]

def EachMerge (P : Dict → Database b → Database b → Prop) (m : Model) :
    List Dict → Database b → Prop
  | [], _ => True
  | row :: rows, db => ∀ db', mergeRow m row db = .ok db' → P row db db' ∧ EachMerge P m rows db'

theorem EachMerge.congr {P Q : Dict → Database b → Database b → Prop}
    (h : ∀ row db db', mergeRow m row db = .ok db' → (P row db db' ↔ Q row db db'))
    (rows : List Dict) (db : Database b) : EachMerge P m rows db ↔ EachMerge Q m rows db := by
  induction rows generalizing db with
  | nil => exact Iff.rfl
  | cons row rows ih =>
    apply forall₂_congr
    intro db' hmerge
    rw [h row db db' hmerge, ih db']

theorem EachMerge.keepsForeign {db db' : Database b}
    (h : EachMerge (fun _ => KeepsForeign tenant slug) m rows db)
    (hall : mergeAll m rows db = .ok db') : KeepsForeign tenant slug db db' := by
  induction rows generalizing db with
  | nil => cases hall; exact .refl _
  | cons row rows ih =>
    obtain ⟨db₁, hmerge, hall⟩ := bind_eq_ok.1 hall
    obtain ⟨hkeeps, hrest⟩ := h db₁ hmerge
    exact hkeeps.trans (ih hrest hall)

/-! ## One file -/

/-- Every path that a file of a payload sets is the tenant's, or is left as it is. -/
def FileConfined (tenant : Option Val) (slug : String) (base : List String)
    (file : String × List UInt8) (db : Database b) : Prop :=
  ∀ w ∈ (fileWrites base file db).2, ownedFile tenant slug w.1 = true ∨
    (db.uploads.find w.1).map Prod.snd = w.2

theorem find_setUpload (db : Database b) (w : List String × Option (List UInt8))
    (path : List String) : (setUpload db w).uploads.find path =
      if path = w.1 then w.2.map fun raw => (w.1, raw) else db.uploads.find path := by
  obtain ⟨target, raw⟩ := w
  cases raw with
  | none => exact KeyedTable.find_erase db.uploads target path
  | some raw => exact KeyedTable.find_upsert db.uploads (target, raw) path

theorem find_setUploads {ws : List (List String × Option (List UInt8))}
    (hn : (ws.map Prod.fst).Nodup) (db : Database b) :
    (∀ w ∈ ws, (ws.foldl setUpload db).uploads.find w.1 = w.2.map fun raw => (w.1, raw)) ∧
      ∀ path ∉ ws.map Prod.fst,
        (ws.foldl setUpload db).uploads.find path = db.uploads.find path := by
  induction ws generalizing db with
  | nil => exact ⟨fun _ => nofun, fun _ _ => rfl⟩
  | cons w ws ih =>
    obtain ⟨hw, hn⟩ := List.nodup_cons.1 hn
    obtain ⟨hset, hkept⟩ := ih hn (setUpload db w)
    constructor
    · intro w' hw'
      rcases List.mem_cons.1 hw' with rfl | hw'
      · rw [List.foldl_cons, hkept _ hw, find_setUpload, if_pos rfl]
      · exact hset w' hw'
    · intro path hpath
      rw [List.map_cons, List.mem_cons, not_or] at hpath
      rw [List.foldl_cons, hkept path hpath.2, find_setUpload, if_neg hpath.1]

theorem table_setUploads (ws : List (List String × Option (List UInt8))) (db : Database b) :
    (ws.foldl setUpload db).table = db.table := by
  induction ws generalizing db with
  | nil => rfl
  | cons w ws ih =>
    rw [List.foldl_cons, ih]
    unfold setUpload
    split
    · rfl
    · rfl

theorem partParts_ne (hne : resolveParts parts ≠ []) (hlast : parts.getLast? ≠ some "..") :
    partParts parts ≠ resolveParts parts := by
  rcases List.eq_nil_or_concat parts with rfl | ⟨init, last, rfl⟩
  · exact (hne rfl).elim
  · rw [List.concat_eq_append] at hlast ⊢
    rw [List.getLast?_append, List.getLast?_singleton, Option.some_or, ne_eq,
      Option.some.injEq] at hlast
    have hpart : partParts (init ++ [last]) = resolveParts init ++ [last ++ ".part"] := by
      rw [partParts, List.dropLast_concat, List.getLast?_append]
      rfl
    rw [hpart, resolveParts_concat, if_neg hlast]
    split
    · intro h
      have hlen := congrArg List.length h
      rw [List.length_append, List.length_singleton] at hlen
      omega
    · intro h
      have hname := List.singleton_inj.1 (List.append_cancel_left h)
      have hlen := congrArg String.length hname
      rw [String.length_append] at hlen
      have hpos : (".part" : String).length = 5 := by decide
      omega

theorem fileWrites_nodup (base : List String) (file : String × List UInt8) (db : Database b) :
    ((fileWrites base file db).2.map Prod.fst).Nodup := by
  rw [fileWrites]
  simp only
  split
  · exact List.nodup_nil
  · rename_i path hpath
    split
    · exact List.nodup_nil
    · split
      · exact List.nodup_nil
      · split
        · cases List.isPrefixOf? base (partParts (targetParts base file.1)) with
          | none => exact List.nodup_nil
          | some _ => exact List.nodup_singleton _
        · rename_i hfile
          rw [not_or, not_or] at hfile
          cases htmp : List.isPrefixOf? base (partParts (targetParts base file.1)) with
          | none => exact List.nodup_singleton _
          | some tmp =>
            refine List.nodup_cons.2 ⟨fun hmem => ?_, List.nodup_singleton _⟩
            rw [List.isPrefixOf?_eq_some_iff_append_eq] at hpath htmp
            have hsame : tmp = path := List.mem_singleton.1 hmem
            refine partParts_ne ?_ hfile.2.1 (htmp.symm.trans (hsame ▸ hpath))
            rw [← hpath]
            exact fun hnil => hfile.1 (List.append_eq_nil_iff.1 hnil).2

theorem writeFile_keepsForeign_iff (base : List String) (file : String × List UInt8)
    (db : Database b) :
    KeepsForeign tenant slug db (writeFile base file db).2 ↔
      FileConfined tenant slug base file db := by
  obtain ⟨hset, hkept⟩ := find_setUploads (fileWrites_nodup base file db) db
  constructor
  · intro h w hw
    by_cases howned : ownedFile tenant slug w.1 = true
    · exact .inl howned
    · right
      have hsame := h.files w.1 (Bool.eq_false_iff.2 howned)
      rw [writeFile, hset w hw] at hsame
      rw [← hsame, Option.map_map]
      exact Option.map_id'
  · intro h
    refine ⟨fun m key => ?_, fun path hpath => ?_⟩
    · rw [Database.foreign, Database.find, writeFile, table_setUploads]
      rfl
    · by_cases hmem : path ∈ (fileWrites base file db).2.map Prod.fst
      · obtain ⟨w, hw, rfl⟩ := List.mem_map.1 hmem
        have hsame := (h w hw).resolve_left (Bool.eq_false_iff.1 hpath)
        rw [writeFile, hset w hw, ← hsame]
        cases hfind : db.uploads.find w.1 with
        | none => rfl
        | some f => rw [← KeyedTable.key_of_find hfind]; rfl
      · exact hkept path hmem

/-! ## The files of one payload -/

def EachFile (P : String × List UInt8 → Database b → Database b → Prop) (base : List String) :
    List (String × List UInt8) → Database b → Prop
  | [], _ => True
  | file :: files, db => P file db (writeFile base file db).2 ∧
      ((writeFile base file db).1 = none → EachFile P base files (writeFile base file db).2)

theorem EachFile.congr {P Q : String × List UInt8 → Database b → Database b → Prop}
    (h : ∀ file db, P file db (writeFile base file db).2 ↔ Q file db (writeFile base file db).2)
    (files : List (String × List UInt8)) (db : Database b) :
    EachFile P base files db ↔ EachFile Q base files db := by
  induction files generalizing db with
  | nil => exact Iff.rfl
  | cons file files ih => exact and_congr (h file db) (imp_congr_right fun _ => ih _)

theorem EachFile.keepsForeign {db : Database b}
    (h : EachFile (fun _ => KeepsForeign tenant slug) base files db) :
    KeepsForeign tenant slug db (writeFiles base files db).2 := by
  induction files generalizing db with
  | nil => exact .refl _
  | cons file files ih =>
    rw [writeFiles]
    split
    · rename_i heq
      have hkeeps := h.1
      rw [heq] at hkeeps
      exact hkeeps
    · rename_i heq
      have hkeeps := h.1
      have hrest := h.2 (congrArg Prod.fst heq)
      rw [heq] at hkeeps hrest
      exact hkeeps.trans (ih hrest)

/-! ## The payload of one contributor -/

/-- The rows that `_upsert_rows` merges of a payload. -/
def JsonDoc.rowsFor (m : Model) (doc : JsonDoc) : Except Exc (List Dict) := do
  let rows ← doc.iter
  rows.mapM (JsonRow.columnsOf m)

def JsonDoc.secretRows (doc : JsonDoc) : Except Exc (List Dict) := do
  let rows ← doc.iter
  keepSecretRows rows

/-- The contributors of the tenant scope that merge rows: the table, and which rows of a payload. -/
inductive Restores : Contributor b → Model → (JsonDoc → Except Exc (List Dict)) → Prop where
  | settings : Restores settingsContributor .setting (JsonDoc.rowsFor .setting)
  | secrets : Restores secretsContributor .setting JsonDoc.secretRows
  | items : Restores itemsContributor .item (JsonDoc.rowsFor .item)
  | auditLog : Restores auditLogContributor .auditLog (JsonDoc.rowsFor .auditLog)

/-- A transaction that merges rows: all of them, or nothing. -/
def Commits (m : Model) (rows : Except Exc (List Dict)) (db db' : Database b) : Prop :=
  (∃ rs, rows = .ok rs ∧ mergeAll m rs db = .ok db') ∨
    ((∀ rs, rows = .ok rs → ∃ e, mergeAll m rs db = .error e) ∧ db' = db)

theorem commits_transaction {x : Except Exc (Nat × Database b)}
    (h : ∀ db', (∃ n, x = .ok (n, db')) ↔ ∃ rs, rows = .ok rs ∧ mergeAll m rs db = .ok db') :
    Commits m rows db (transaction db x).2 := by
  cases x with
  | ok r => exact .inl ((h r.2).1 ⟨r.1, rfl⟩)
  | error e =>
    refine .inr ⟨fun rs hrs => ?_, rfl⟩
    cases hm : mergeAll m rs db with
    | error e' => exact ⟨e', rfl⟩
    | ok db' =>
      obtain ⟨n, hn⟩ := (h db').2 ⟨rs, hrs, hm⟩
      cases hn

theorem upsertRows_ok_iff {db db' : Database b} :
    (∃ n, upsertRows m rs db = .ok (n, db')) ↔ mergeAll m rs db = .ok db' := by
  rw [upsertRows_eq]
  constructor
  · rintro ⟨n, h⟩
    obtain ⟨db₁, hall, heq⟩ := map_eq_ok.1 h
    cases heq
    exact hall
  · intro h
    exact ⟨rs.length, map_eq_ok.2 ⟨db', h, rfl⟩⟩

/-- Reading the rows first, or each before its merge, succeeds alike. -/
theorem upsertDoc_ok_iff {db db' : Database b} :
    (∃ n, upsertDoc m doc db = .ok (n, db')) ↔
      ∃ rs, doc.rowsFor m = .ok rs ∧ mergeAll m rs db = .ok db' := by
  have hfrom : ∀ (rows : List JsonRow) (count : Nat) (db : Database b),
      (∃ n, rows.foldlM (fun (acc : Nat × Database b) row => do
        let row ← row.columnsOf m
        let db ← mergeRow m row acc.2
        Except.ok (acc.1 + 1, db)) (count, db) = .ok (n, db')) ↔
      ∃ rs, rows.mapM (JsonRow.columnsOf m) = .ok rs ∧ mergeAll m rs db = .ok db' := by
    intro rows
    induction rows with
    | nil =>
      intro count db
      constructor
      · rintro ⟨n, h⟩
        cases h
        exact ⟨[], rfl, rfl⟩
      · rintro ⟨rs, hrs, h⟩
        cases hrs
        cases h
        exact ⟨count, rfl⟩
    | cons row rows ih =>
      intro count db
      constructor
      · rintro ⟨n, h⟩
        rw [List.foldlM_cons] at h
        obtain ⟨acc, hstep, h⟩ := bind_eq_ok.1 h
        obtain ⟨r, hr, hstep⟩ := bind_eq_ok.1 hstep
        obtain ⟨db₁, hmerge, hstep⟩ := bind_eq_ok.1 hstep
        cases hstep
        obtain ⟨rs, hrs, hall⟩ := (ih (count + 1) db₁).1 ⟨n, h⟩
        exact ⟨r :: rs, mapM_cons_eq_ok.2 ⟨r, rs, hr, hrs, rfl⟩, bind_eq_ok.2 ⟨db₁, hmerge, hall⟩⟩
      · rintro ⟨_, hrs, hall⟩
        obtain ⟨r, rs, hr, hrest, rfl⟩ := mapM_cons_eq_ok.1 hrs
        obtain ⟨db₁, hmerge, hall⟩ := bind_eq_ok.1 hall
        obtain ⟨n, hn⟩ := (ih (count + 1) db₁).2 ⟨rs, hrest, hall⟩
        refine ⟨n, ?_⟩
        rw [List.foldlM_cons]
        exact bind_eq_ok.2 ⟨_, bind_eq_ok.2 ⟨r, hr, bind_eq_ok.2 ⟨db₁, hmerge, rfl⟩⟩, hn⟩
  unfold upsertDoc JsonDoc.rowsFor
  cases doc.iter with
  | error e => exact ⟨fun ⟨_, h⟩ => (nomatch h), fun ⟨_, h, _⟩ => (nomatch h)⟩
  | ok rows => exact hfrom rows 0 db

theorem Restores.commits {c : Contributor b} (h : Restores c m rowsOf) (scope : BackupScope)
    (t : Val) (doc : JsonDoc) (files : List (String × List UInt8)) (db : Database b) :
    Commits m (rowsOf doc) db (c.restore scope t doc files db).2 := by
  cases h with
  | settings => exact commits_transaction fun _ => upsertDoc_ok_iff
  | items => exact commits_transaction fun _ => upsertDoc_ok_iff
  | auditLog => exact commits_transaction fun _ => upsertDoc_ok_iff
  | secrets =>
    apply commits_transaction
    intro db'
    unfold JsonDoc.secretRows
    cases doc.iter with
    | error e => exact ⟨fun ⟨_, h⟩ => (nomatch h), fun ⟨_, h, _⟩ => (nomatch h)⟩
    | ok rows =>
      change (∃ n, keepSecretRows rows >>= (fun rs => upsertRows .setting rs db) = .ok (n, db')) ↔
        ∃ rs, keepSecretRows rows = .ok rs ∧ _
      cases keepSecretRows rows with
      | error e => exact ⟨fun ⟨_, h⟩ => (nomatch h), fun ⟨_, h, _⟩ => (nomatch h)⟩
      | ok rs =>
        refine upsertRows_ok_iff.trans ⟨fun h => ⟨rs, rfl, h⟩, ?_⟩
        rintro ⟨_, ⟨⟩, h⟩
        exact h

/-! ## The whole restore -/

/-- What holds of each committed merge and each written file of a call. -/
def CallWrites (R : Model → Dict → Database b → Database b → Prop)
    (F : List String → String × List UInt8 → Database b → Database b → Prop) (call : RestoreCall b)
    (db : Database b) : Prop :=
  (∀ m rowsOf rows db', Restores call.contributor m rowsOf → rowsOf call.payload.rows = .ok rows →
    mergeAll m rows db = .ok db' → EachMerge (R m) m rows db) ∧
  ∀ base n, call.contributor = filesContributor base n →
    EachFile (F base) base call.payload.files db

/-- The same along the calls of a restore. -/
def EachWrite (R : Model → Dict → Database b → Database b → Prop)
    (F : List String → String × List UInt8 → Database b → Database b → Prop) :
    List (RestoreCall b) → Database b → Prop
  | [], _ => True
  | call :: calls, db => CallWrites R F call db ∧ EachWrite R F calls (call.run .tenant db).2

theorem EachWrite.congr {R R' : Model → Dict → Database b → Database b → Prop}
    {F F' : List String → String × List UInt8 → Database b → Database b → Prop}
    (hR : ∀ m row db db', mergeRow m row db = .ok db' → (R m row db db' ↔ R' m row db db'))
    (hF : ∀ base file db, F base file db (writeFile base file db).2 ↔
      F' base file db (writeFile base file db).2)
    (calls : List (RestoreCall b)) (db : Database b) :
    EachWrite R F calls db ↔ EachWrite R' F' calls db := by
  induction calls generalizing db with
  | nil => exact Iff.rfl
  | cons call calls ih =>
    refine and_congr (and_congr ?_ ?_) (ih _)
    · exact forall_congr' fun m => forall₄_congr fun rowsOf rows db' _ =>
        imp_congr_right fun _ => imp_congr_right fun _ => EachMerge.congr (hR m) rows db
    · exact forall₃_congr fun base n _ => EachFile.congr (hF base) _ db

theorem tenantContributor_cases {c : Contributor b}
    (h : c ∈ (buildBackupService app_name app_version dir).inScope .tenant) :
    (∃ m rowsOf, Restores c m rowsOf) ∨ ∃ base n, c = filesContributor base n := by
  obtain ⟨hmem, hscope⟩ := List.mem_filter.1 h
  rw [buildBackupService_rows, List.mem_append] at hmem
  rcases hmem with hmem | hmem
  · simp only [builtinContributors, List.mem_cons, List.not_mem_nil, or_false] at hmem
    rcases hmem with rfl | rfl | rfl | rfl | rfl | rfl
    · cases hscope
    · cases hscope
    · exact .inl ⟨_, _, .settings⟩
    · exact .inl ⟨_, _, .secrets⟩
    · exact .inl ⟨_, _, .items⟩
    · exact .inl ⟨_, _, .auditLog⟩
  · exact .inr (mem_uploadContributors hmem)

theorem CallWrites.keepsForeign {call : RestoreCall b} {db : Database b}
    (hc : (∃ m rowsOf, Restores call.contributor m rowsOf) ∨
      ∃ base n, call.contributor = filesContributor base n)
    (h : CallWrites (fun _ _ => KeepsForeign tenant slug) (fun _ _ => KeepsForeign tenant slug)
      call db) : KeepsForeign tenant slug db (call.run .tenant db).2 := by
  rcases hc with ⟨m, rowsOf, hrestores⟩ | ⟨base, n, hfiles⟩
  · rcases hrestores.commits .tenant (tenantVal call.tenant_id) call.payload.rows
      call.payload.files db with ⟨rows, hrows, hall⟩ | ⟨_, hsame⟩
    · exact (h.1 m rowsOf rows _ hrestores hrows hall).keepsForeign hall
    · rw [RestoreCall.run, hsame]
      exact .refl db
  · rw [RestoreCall.run, hfiles]
    exact (h.2 base n hfiles).keepsForeign

theorem EachWrite.keepsForeign {calls : List (RestoreCall b)} {db : Database b}
    (hc : ∀ call ∈ calls, (∃ m rowsOf, Restores call.contributor m rowsOf) ∨
      ∃ base n, call.contributor = filesContributor base n)
    (h : EachWrite (fun _ _ => KeepsForeign tenant slug) (fun _ _ => KeepsForeign tenant slug)
      calls db) : KeepsForeign tenant slug db (runAll .tenant calls db) := by
  induction calls generalizing db with
  | nil => exact .refl db
  | cons call calls ih =>
    have hcall := h.1.keepsForeign (hc call List.mem_cons_self)
    exact hcall.trans (ih (fun call' h' => hc call' (List.mem_cons_of_mem _ h')) h.2)

/-- A restore changes only what belongs to the tenant with a slug: each of its writes, and the
restore as a whole. Its audit entry is left aside. -/
structure RestoreIsolated (svc : BackupService b) (slug : String) (o : OpenBundle)
    (db : Database b) : Prop where
  writes : EachWrite (fun _ _ => KeepsForeign (tenantOf slug db) slug)
    (fun _ _ => KeepsForeign (tenantOf slug db) slug) (svc.restoreCalls o) db
  unchanged : KeepsForeign (tenantOf slug db) slug db (svc.restoreAll o db).2

/-- Each row that is merged and each file that is written is confined to the tenant. -/
def RestoreConfined (svc : BackupService b) (slug : String) (o : OpenBundle) (db : Database b) :
    Prop :=
  EachWrite (fun m row db' _ => RowConfined (tenantOf slug db) m row db')
    (fun base file db' _ => FileConfined (tenantOf slug db) slug base file db')
    (svc.restoreCalls o) db

/-- A bundle of the tenant scope that names its tenant. -/
structure OpensFor (bundle : Tarball) (slug : String) (o : OpenBundle) : Prop where
  opens : openBundle bundle = .ok o
  scope : o.manifest.scope = .tenant
  slug : o.manifest.tenant_slug = some slug

/-- Every tenant-scoped restore stays with its tenant. -/
def TenantRestoresIsolated (b : Backend) : Prop :=
  ∀ app_name app_version dir bundle (db : Database b) slug o, OpensFor bundle slug o →
    RestoreIsolated (buildBackupService app_name app_version dir) slug o db

section

def themeOpened : OpenBundle where
  manifest := ⟨1, .tenant, some "acme", newYear, "app", "1.0", []⟩
  data := KeyedTable.upsert ∅ ("settings", { rows := .ofRows [themeRow] })
  tenant_id := none

end

end ScottyCore
