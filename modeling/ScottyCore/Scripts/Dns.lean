import Mathlib.Data.List.Basic
import ScottyCore.Lib.Json
import ScottyCore.Lib.KeyedTable

namespace ScottyCore
open Python
set_option autoImplicit true

/-! ## `unifi.py` -/

/-- A static DNS record: its `_id` and its other members. -/
structure DnsRecord where
  id : String
  body : JsonDict

abbrev DnsTable := KeyedTable DnsRecord DnsRecord.id

namespace DnsRecord

/-- `r.get(key) == text` -/
def has (r : DnsRecord) (key text : String) : Bool :=
  Json.isText text (r.body.get key)

/-- `r.get("enabled", True)` -/
def enabled (r : DnsRecord) : Bool :=
  match r.body.lookup "enabled" with
  | none => true
  | some j => j.truthy

/-- `r.get("key") == name and r.get("record_type") == rec_type` -/
def named (name rec_type : String) (r : DnsRecord) : Bool :=
  r.has "key" name && r.has "record_type" rec_type

end DnsRecord

inductive DnsRequest where
  | get
  | put (record : DnsRecord)
  | post (body : JsonDict)

/-- The gateway: whether the login and each request succeed, and where a created record goes. -/
structure Gateway where
  login : Bool
  answers : DnsRequest → Bool
  create : DnsTable → JsonDict → DnsTable
  created : ∀ table body, ∃ before id after, table.rows = before ++ after ∧
    (create table body).rows = before ++ ⟨id, body⟩ :: after

/-- `fqdn.split(".")` -/
def labels (fqdn : String) : List String :=
  (fqdn.toList.splitOn '.').map String.ofList

/-- `"*." + ".".join(parts[i:])` -/
def wildcardAt (fqdn : String) (i : Nat) : String :=
  "*." ++ String.intercalate "." ((labels fqdn).drop i)

/-- `_wildcard_covers` -/
def wildcardCovers (records : List DnsRecord) (fqdn rec_type value : String) : Bool :=
  (List.range' 1 ((labels fqdn).length - 1 - 1)).any fun i =>
    records.any fun r =>
      r.named (wildcardAt fqdn i) rec_type && r.has "value" value && r.enabled

/-- `{**cur, "value": value, "enabled": True}` -/
def DnsRecord.corrected (cur : DnsRecord) (value : String) : DnsRecord :=
  ⟨cur.id, (cur.body.set "value" (.str value)).set "enabled" (.bool true)⟩

def newRecord (fqdn rec_type value : String) : JsonDict :=
  [("key", .str fqdn), ("record_type", .str rec_type), ("value", .str value),
    ("enabled", .bool true), ("ttl", .int 0), ("port", .int 0), ("priority", .int 0),
    ("weight", .int 0)]

namespace Gateway

/-- `upsert`, which looks at the records that were fetched first. -/
def upsert (g : Gateway) (records : List DnsRecord) (fqdn rec_type value : String)
    (table : DnsTable) : DnsTable :=
  if wildcardCovers records fqdn rec_type value then table
  else
    match records.filter (DnsRecord.named fqdn rec_type) with
    | cur :: _ =>
      if cur.has "value" value && cur.enabled then table
      else if g.answers (.put (cur.corrected value)) then table.upsert (cur.corrected value)
      else table
    | [] =>
      if g.answers (.post (newRecord fqdn rec_type value)) then
        g.create table (newRecord fqdn rec_type value)
      else table

/-- `ensure_dns`: its result and the records that the gateway then has. -/
def ensureDns (g : Gateway) (fqdn a_value aaaa_value : String) (table : DnsTable) :
    Bool × DnsTable :=
  if !g.login then (false, table)
  else if !g.answers .get then (false, table)
  else
    let records := table.rows
    (true, g.upsert records fqdn "AAAA" aaaa_value (g.upsert records fqdn "A" a_value table))

end Gateway

/-! ## What a name resolves to -/

/-- The names whose records answer for `fqdn`: its own, then the wildcards of its parents, closest
first. -/
def answeringNames (fqdn : String) : List String :=
  fqdn :: (List.range' 1 ((labels fqdn).length - 1)).map (wildcardAt fqdn)

def answering (records : List DnsRecord) (rec_type name : String) : List DnsRecord :=
  (records.filter (DnsRecord.named name rec_type)).filter DnsRecord.enabled

/-- The enabled records of the first answering name that has any. -/
def effective (records : List DnsRecord) (fqdn rec_type : String) : List DnsRecord :=
  (((answeringNames fqdn).map (answering records rec_type)).find? fun rs => !rs.isEmpty).getD []

structure Resolves (records : List DnsRecord) (fqdn rec_type value : String) : Prop where
  answered : effective records fqdn rec_type ≠ []
  value : ∀ r ∈ effective records fqdn rec_type, r.has "value" value = true

/-- What `ensure_dns` promises. -/
structure EnsuresDns (g : Gateway) (fqdn a_value aaaa_value : String) (table : DnsTable) : Prop where
  resolves_a : Resolves (g.ensureDns fqdn a_value aaaa_value table).2.rows fqdn "A" a_value
  resolves_aaaa : Resolves (g.ensureDns fqdn a_value aaaa_value table).2.rows fqdn "AAAA" aaaa_value
  others : (g.ensureDns fqdn a_value aaaa_value table).2.rows.filter (fun r => !r.has "key" fqdn) =
    table.rows.filter fun r => !r.has "key" fqdn
  again : g.ensureDns fqdn a_value aaaa_value (g.ensureDns fqdn a_value aaaa_value table).2 =
    (true, (g.ensureDns fqdn a_value aaaa_value table).2)

/-- Where a wildcard with the value is found, nothing shadows it with another value; elsewhere no
enabled record of the name but the first has another value. -/
def KeepsValue (records : List DnsRecord) (fqdn rec_type value : String) : Prop :=
  if wildcardCovers records fqdn rec_type value then
    ∀ r ∈ effective records fqdn rec_type, r.has "value" value = true
  else
    ∀ r ∈ (records.filter (DnsRecord.named fqdn rec_type)).tail, r.enabled = true →
      r.has "value" value = true

instance (records : List DnsRecord) (fqdn rec_type value : String) :
    Decidable (KeepsValue records fqdn rec_type value) :=
  inferInstanceAs (Decidable (if wildcardCovers records fqdn rec_type value = true then _ else _))

/-! ## What one upsert does -/

theorem get_corrected (cur : DnsRecord) (value key : String) :
    (cur.corrected value).body.get key =
      if key = "enabled" then .bool true
      else if key = "value" then .str value
      else cur.body.get key := by
  rw [JsonDict.get, DnsRecord.corrected, JsonDict.lookup_set, JsonDict.lookup_set]
  split
  · rfl
  · split
    · rfl
    · rfl

namespace DnsRecord

/-- A record has one text under a key. -/
theorem eq_of_has {r : DnsRecord} (h : r.has key text = true) (h' : r.has key text' = true) :
    text = text' := by
  rw [has, Json.isText_iff] at h h'
  exact Json.str.inj (h.symm.trans h')

theorem named_iff {r : DnsRecord} : r.named name rec_type = true ↔
    r.has "key" name = true ∧ r.has "record_type" rec_type = true := by
  rw [named, Bool.and_eq_true]

theorem named_corrected (cur : DnsRecord) (value name rec_type : String) :
    (cur.corrected value).named name rec_type = cur.named name rec_type := by
  simp only [named, has, get_corrected, String.reduceEq, if_false]

theorem value_corrected (cur : DnsRecord) (value : String) :
    (cur.corrected value).has "value" value = true := by
  simp [has, get_corrected, Json.isText_iff]

theorem enabled_corrected (cur : DnsRecord) (value : String) :
    (cur.corrected value).enabled = true := by
  simp [enabled, corrected, JsonDict.lookup_set, Json.truthy]

end DnsRecord

section
variable {g : Gateway} {records l l' : List DnsRecord} {t t' : DnsTable}
  {fqdn rec_type value name : String}

/-- The records of a type, which are all that an upsert and an answer for it look at. -/
def ofType (rec_type : String) (records : List DnsRecord) : List DnsRecord :=
  records.filter fun r => r.has "record_type" rec_type

theorem filter_named (name rec_type : String) (l : List DnsRecord) :
    l.filter (DnsRecord.named name rec_type) =
      (ofType rec_type l).filter fun r => r.has "key" name := by
  rw [ofType, List.filter_filter]
  rfl

theorem answering_congr (h : ofType rec_type l = ofType rec_type l') (name : String) :
    answering l rec_type name = answering l' rec_type name := by
  rw [answering, answering, filter_named, filter_named, h]

theorem effective_congr (h : ofType rec_type l = ofType rec_type l') (fqdn : String) :
    effective l fqdn rec_type = effective l' fqdn rec_type := by
  have hall : answering l rec_type = answering l' rec_type := funext (answering_congr h)
  rw [effective, effective, hall]

theorem wildcardCovers_iff : wildcardCovers records fqdn rec_type value = true ↔
    ∃ i, (1 ≤ i ∧ i < (labels fqdn).length - 1) ∧
      ∃ r ∈ answering records rec_type (wildcardAt fqdn i), r.has "value" value = true := by
  simp only [wildcardCovers, answering, List.any_eq_true, List.mem_range'_1, List.mem_filter,
    Bool.and_eq_true]
  constructor
  · rintro ⟨i, hi, r, hr, ⟨hnamed, hvalue⟩, henabled⟩
    exact ⟨i, by omega, r, ⟨⟨hr, hnamed⟩, henabled⟩, hvalue⟩
  · rintro ⟨i, hi, r, ⟨⟨hr, hnamed⟩, henabled⟩, hvalue⟩
    exact ⟨i, by omega, r, hr, ⟨hnamed, hvalue⟩, henabled⟩

theorem wildcardCovers_congr (h : ofType rec_type l = ofType rec_type l') (fqdn value : String) :
    wildcardCovers l fqdn rec_type value = wildcardCovers l' fqdn rec_type value := by
  rw [Bool.eq_iff_iff, wildcardCovers_iff, wildcardCovers_iff]
  simp only [answering_congr h]

/-- A covered name is answered for. -/
theorem effective_of_covers (h : wildcardCovers records fqdn rec_type value = true) :
    effective records fqdn rec_type ≠ [] := by
  obtain ⟨i, hi, r, hr, -⟩ := wildcardCovers_iff.1 h
  have hmem : answering records rec_type (wildcardAt fqdn i) ∈
      (answeringNames fqdn).map (answering records rec_type) := by
    apply List.mem_map_of_mem
    apply List.mem_cons_of_mem
    apply List.mem_map_of_mem
    rw [List.mem_range'_1]
    omega
  have hsome : (((answeringNames fqdn).map (answering records rec_type)).find?
      fun rs => !rs.isEmpty).isSome = true := by
    rw [List.find?_isSome]
    refine ⟨_, hmem, ?_⟩
    cases hrs : answering records rec_type (wildcardAt fqdn i) with
    | nil => rw [hrs] at hr; cases hr
    | cons _ _ => rfl
  obtain ⟨rs, hrs⟩ := Option.isSome_iff_exists.1 hsome
  have hne := List.find?_some hrs
  rw [effective, hrs]
  rintro rfl
  cases hne

/-- Records of its own answer for a name first. -/
theorem effective_of_specific {cur : DnsRecord} {rest : List DnsRecord}
    (h : records.filter (DnsRecord.named fqdn rec_type) = cur :: rest)
    (hcur : cur.enabled = true) :
    effective records fqdn rec_type = cur :: rest.filter DnsRecord.enabled := by
  have hown : answering records rec_type fqdn = cur :: rest.filter DnsRecord.enabled := by
    rw [answering, h, List.filter_cons, if_pos hcur]
  rw [effective, answeringNames, List.map_cons, hown]
  rfl

theorem keepsValue_congr (h : ofType rec_type l = ofType rec_type l') :
    KeepsValue l fqdn rec_type value ↔ KeepsValue l' fqdn rec_type value := by
  rw [KeepsValue, KeepsValue, wildcardCovers_congr h, effective_congr h, filter_named, filter_named,
    h]

/-- What an upsert leaves: all records of other names and types, and unless a wildcard covers the
name a first record with the value. -/
structure Upserted (records : List DnsRecord) (fqdn rec_type value : String) (t t' : DnsTable) :
    Prop where
  frame : ∀ p : DnsRecord → Bool, (∀ r, r.named fqdn rec_type = true → p r = false) →
    t'.rows.filter p = t.rows.filter p
  covered : wildcardCovers records fqdn rec_type value = true → t' = t
  written : wildcardCovers records fqdn rec_type value = false →
    ∃ cur, cur.has "value" value = true ∧ cur.enabled = true ∧
      t'.rows.filter (DnsRecord.named fqdn rec_type) =
        cur :: (t.rows.filter (DnsRecord.named fqdn rec_type)).tail

theorem named_newRecord (id fqdn rec_type value : String) :
    (DnsRecord.mk id (newRecord fqdn rec_type value)).named fqdn rec_type = true := by
  rw [DnsRecord.named_iff]
  exact ⟨decide_eq_true rfl, decide_eq_true rfl⟩

theorem Gateway.upserted (hg : ∀ q, g.answers q = true)
    (hrecords : ofType rec_type records = ofType rec_type t.rows) (fqdn value : String) :
    Upserted records fqdn rec_type value t (g.upsert records fqdn rec_type value t) := by
  rw [upsert]
  by_cases hcovers : wildcardCovers records fqdn rec_type value = true
  · rw [if_pos hcovers]
    exact ⟨fun _ _ => rfl, fun _ => rfl, fun h => absurd hcovers (by rw [h]; decide)⟩
  rw [if_neg hcovers, filter_named, hrecords, ← filter_named]
  cases hfilter : t.rows.filter (DnsRecord.named fqdn rec_type) with
  | nil =>
    -- no record yet: one is created
    obtain ⟨before, id, after, hrows, hcreated⟩ := g.created t (newRecord fqdn rec_type value)
    have hnew := named_newRecord id fqdn rec_type value
    simp only [hg, if_true]
    refine ⟨?_, fun h => absurd h hcovers, fun _ => ?_⟩
    · intro p hp
      rw [hcreated, hrows, List.filter_append, List.filter_append, List.filter_cons,
        if_neg (by rw [hp _ hnew]; decide)]
    · refine ⟨⟨id, newRecord fqdn rec_type value⟩, decide_eq_true rfl, rfl, ?_⟩
      rw [hrows, List.filter_append, List.append_eq_nil_iff] at hfilter
      rw [hcreated, hrows, List.filter_append, List.filter_append, List.filter_cons, if_pos hnew,
        hfilter.1, hfilter.2]
      rfl
  | cons cur rest =>
    have hcur : cur ∈ t.rows ∧ cur.named fqdn rec_type = true :=
      List.mem_filter.1 (hfilter ▸ List.mem_cons_self)
    dsimp only
    by_cases hright : (cur.has "value" value && cur.enabled) = true
    · rw [if_pos hright]
      rw [Bool.and_eq_true] at hright
      exact ⟨fun _ _ => rfl, fun h => absurd h hcovers,
        fun _ => ⟨cur, hright.1, hright.2, by rw [hfilter]; rfl⟩⟩
    · -- the first record is corrected in its place
      have hsame : ∀ r ∈ t.rows, r.id = cur.id → r = cur := fun r hr hid =>
        KeyedTable.eq_of_mem hr hcur.1 hid
      have hput : (cur.corrected value).named fqdn rec_type = true := by
        rw [DnsRecord.named_corrected]
        exact hcur.2
      rw [if_neg hright, if_pos (hg _)]
      refine ⟨?_, fun h => absurd h hcovers, fun _ => ?_⟩
      · intro p hp
        apply KeyedTable.filter_upsertRows_of_neg (hp _ hput)
        intro r hr hid
        rw [hsame r hr hid]
        exact hp cur hcur.2
      · refine ⟨cur.corrected value, cur.value_corrected value, cur.enabled_corrected value, ?_⟩
        have hrows : (t.upsert (cur.corrected value)).rows.filter (DnsRecord.named fqdn rec_type) =
            KeyedTable.upsertRows DnsRecord.id (cur.corrected value) (cur :: rest) := by
          rw [← hfilter]
          apply KeyedTable.filter_upsertRows_of_pos hput
          intro r hr hid
          rw [hsame r hr hid]
          exact hcur.2
        rw [hrows, hfilter]
        exact if_pos rfl

namespace Upserted

variable (h : Upserted records fqdn rec_type value t t')
include h

theorem ofType_eq (hother : other ≠ rec_type) : ofType other t'.rows = ofType other t.rows := by
  apply h.frame
  intro r hr
  rw [Bool.eq_false_iff]
  exact fun hhas => hother (DnsRecord.eq_of_has hhas (DnsRecord.named_iff.1 hr).2)

theorem others_eq : t'.rows.filter (fun r => !r.has "key" fqdn) =
    t.rows.filter fun r => !r.has "key" fqdn := by
  apply h.frame
  intro r hr
  rw [(DnsRecord.named_iff.1 hr).1]
  rfl

/-- A further upsert finds nothing to do. -/
theorem upsert_eq (hrecords : ofType rec_type records = ofType rec_type t.rows)
    (hfinal : ofType rec_type l = ofType rec_type t'.rows) (t'' : DnsTable) :
    g.upsert l fqdn rec_type value t'' = t'' := by
  rw [Gateway.upsert, wildcardCovers_congr hfinal]
  by_cases hcovers : wildcardCovers t'.rows fqdn rec_type value = true
  · rw [if_pos hcovers]
  have hbefore : wildcardCovers records fqdn rec_type value = false := by
    rw [← Bool.not_eq_true]
    intro hcovered
    rw [h.covered hcovered, ← wildcardCovers_congr hrecords] at hcovers
    exact hcovers hcovered
  obtain ⟨cur, hvalue, henabled, hfilter⟩ := h.written hbefore
  rw [if_neg hcovers, filter_named, hfinal, ← filter_named, hfilter]
  dsimp only
  rw [hvalue, henabled]
  rfl

theorem resolves_iff (hrecords : ofType rec_type records = ofType rec_type t.rows) :
    Resolves t'.rows fqdn rec_type value ↔ KeepsValue t.rows fqdn rec_type value := by
  rw [KeepsValue, ← wildcardCovers_congr hrecords]
  by_cases hcovers : wildcardCovers records fqdn rec_type value = true
  · rw [if_pos hcovers, h.covered hcovers]
    constructor
    · exact fun hresolves => hresolves.value
    · intro hvalue
      have hcovered := wildcardCovers_congr hrecords fqdn value ▸ hcovers
      exact ⟨effective_of_covers hcovered, hvalue⟩
  · obtain ⟨cur, hvalue, henabled, hfilter⟩ := h.written (Bool.eq_false_iff.2 hcovers)
    have heffective := effective_of_specific hfilter henabled
    rw [if_neg hcovers]
    constructor
    · intro hresolves r hr hrenabled
      apply hresolves.value
      rw [heffective]
      exact List.mem_cons_of_mem _ (List.mem_filter.2 ⟨hr, hrenabled⟩)
    · intro hrest
      refine ⟨by rw [heffective]; exact List.cons_ne_nil _ _, ?_⟩
      intro r hr
      rw [heffective, List.mem_cons, List.mem_filter] at hr
      rcases hr with rfl | ⟨hr, hrenabled⟩
      · exact hvalue
      · exact hrest r hr hrenabled

end Upserted

end

/-- The name resolves to both values where no enabled record with another value is left over. -/
theorem ensuresDns_iff (g : Gateway) (fqdn a_value aaaa_value : String) (table : DnsTable)
    (hlogin : g.login = true) (hanswers : ∀ q, g.answers q = true) :
    EnsuresDns g fqdn a_value aaaa_value table ↔
      KeepsValue table.rows fqdn "A" a_value ∧ KeepsValue table.rows fqdn "AAAA" aaaa_value := by
  have hrun : ∀ t, g.ensureDns fqdn a_value aaaa_value t =
      (true, g.upsert t.rows fqdn "AAAA" aaaa_value (g.upsert t.rows fqdn "A" a_value t)) := by
    intro t
    rw [Gateway.ensureDns, hlogin, hanswers]
    rfl
  have ha : Upserted table.rows fqdn "A" a_value table
      (g.upsert table.rows fqdn "A" a_value table) := g.upserted hanswers rfl fqdn a_value
  have htyped : ofType "AAAA" _ = ofType "AAAA" table.rows := ha.ofType_eq (by decide)
  have haaaa := g.upserted hanswers htyped.symm fqdn aaaa_value
  have htyped' : ofType "A" _ = ofType "A" _ := haaaa.ofType_eq (by decide)
  have haresolves := ha.resolves_iff rfl
  have haaaaresolves := haaaa.resolves_iff htyped.symm
  have hafinal := effective_congr htyped' fqdn
  have hagain := hrun (g.upsert table.rows fqdn "AAAA" aaaa_value
    (g.upsert table.rows fqdn "A" a_value table))
  rw [ha.upsert_eq rfl htyped', haaaa.upsert_eq htyped.symm rfl] at hagain
  rw [← haresolves, ← keepsValue_congr htyped, ← haaaaresolves]
  constructor
  · intro h
    have hfirst := h.resolves_a
    have hsecond := h.resolves_aaaa
    rw [hrun] at hfirst hsecond
    exact ⟨⟨hafinal ▸ hfirst.answered, hafinal ▸ hfirst.value⟩, hsecond⟩
  · rintro ⟨hfirst, hsecond⟩
    refine ⟨?_, ?_, ?_, ?_⟩
    · rw [hrun]
      exact ⟨hafinal.symm ▸ hfirst.answered, hafinal.symm ▸ hfirst.value⟩
    · rw [hrun]
      exact hsecond
    · rw [hrun]
      exact haaaa.others_eq.trans ha.others_eq
    · rw [hrun table]
      exact hagain

/-! ## A wildcard behind a record of the name -/

def totalLength (ss : List String) : Nat := ss.foldr (fun s n => s.length + n) 0

theorem length_le_totalLength {s : String} {ss : List String} (h : s ∈ ss) :
    s.length ≤ totalLength ss := by
  induction ss with
  | nil => cases h
  | cons s' ss ih =>
    rw [totalLength, List.foldr_cons]
    rcases List.mem_cons.1 h with rfl | h
    · exact Nat.le_add_right _ _
    · exact Nat.le_add_left_of_le (ih h)

/-- An id longer than all others. -/
def longId (ids : List String) : String :=
  String.ofList (List.replicate (totalLength ids + 1) '0')

theorem longId_not_mem (ids : List String) : longId ids ∉ ids := by
  intro h
  have hle := length_le_totalLength h
  rw [longId, String.length_ofList, List.length_replicate] at hle
  exact Nat.not_succ_le_self _ hle

/-- A gateway that answers and appends what is created. -/
def appending : Gateway where
  login := true
  answers _ := true
  create table body :=
    ⟨table.rows ++ [⟨longId (table.rows.map DnsRecord.id), body⟩], by
      rw [List.map_append, List.map_singleton, List.nodup_append_comm]
      exact List.nodup_cons.2 ⟨longId_not_mem _, table.nodup⟩⟩
  created table body := ⟨table.rows, _, [], (List.append_nil _).symm, rfl⟩

def staticRecord (id key value : String) : DnsRecord :=
  ⟨id, [("key", .str key), ("record_type", .str "A"), ("value", .str value)]⟩

/-- A wildcard with the value of the name, and a record of the name with another value. -/
def shadowed : DnsTable where
  rows := [staticRecord "1" "*.example.com" "192.0.2.1",
    staticRecord "2" "app.example.com" "192.0.2.2"]
  nodup := by decide

theorem plain_name_ensured :
    EnsuresDns appending "app.example.com" "192.0.2.1" "2001:db8::1" ∅ := by
  apply (ensuresDns_iff appending "app.example.com" "192.0.2.1" "2001:db8::1" ∅ rfl fun _ => rfl).2
  decide +kernel

/-- The wildcard covers the name, and the name still resolves to its own record. -/
theorem shadowed_not_ensured :
    ¬ EnsuresDns appending "app.example.com" "192.0.2.1" "2001:db8::1" shadowed := by
  intro h
  have hvalue := h.resolves_a.value
  revert hvalue
  decide +kernel

end ScottyCore
