import ScottyCore.Lib.Value

namespace ScottyCore
open Python
set_option autoImplicit true

/-- What a database session or a service raises. -/
inductive Exc where
  | python (e : Python.Error)
  | integrityError (msg : String)
  | statementError (msg : String)
  | readError (msg : String)
  | osError (msg : String)
  | runtimeError (msg : String)
  deriving DecidableEq, Repr

def Exc.ofPython : Except Python.Error α → Except Exc α
  | .ok a => .ok a
  | .error e => .error (.python e)

inductive ColumnType where
  | string | integer | boolean | text | dateTime | json
  deriving DecidableEq, Repr

/-- What an omitted column is filled with on insertion. -/
inductive Default where
  | none
  | value (v : Val)
  | newUuid
  | now
  | autoincrement
  deriving DecidableEq

structure Column where
  name : String
  type : ColumnType
  nullable : Bool
  default : Default
  onupdate : Bool
  deriving DecidableEq

namespace Column

def required (name : String) (type : ColumnType) : Column := ⟨name, type, false, .none, false⟩
def optional (name : String) (type : ColumnType) : Column := ⟨name, type, true, .none, false⟩
def withDefault (name : String) (type : ColumnType) (v : Val) : Column :=
  ⟨name, type, false, .value v, false⟩
def uuid (name : String) : Column := ⟨name, .string, false, .newUuid, false⟩
def serverNow (name : String) : Column := ⟨name, .dateTime, false, .now, false⟩
def updatedAt : Column := ⟨"updated_at", .dateTime, false, .now, true⟩

end Column

def timestampMixin : List Column := [.serverNow "created_at", .updatedAt]

inductive Model where
  | user | role | userTenantRole | tenant | setting | item | auditLog
  deriving DecidableEq, Repr

namespace Model

def className : Model → String
  | user => "User"
  | role => "Role"
  | userTenantRole => "UserTenantRole"
  | tenant => "Tenant"
  | setting => "Setting"
  | item => "Item"
  | auditLog => "AuditLog"

def tablename : Model → String
  | user => "users"
  | role => "roles"
  | userTenantRole => "user_tenant_roles"
  | tenant => "tenants"
  | setting => "settings"
  | item => "items"
  | auditLog => "audit_log"

def columns : Model → List Column
  | user =>
    [.uuid "id", .required "email" .string, .required "password_hash" .string,
      .required "display_name" .string, .withDefault "is_active" .boolean (.bool true),
      .withDefault "is_superadmin" .boolean (.bool false), .optional "last_login" .dateTime,
      .optional "totp_secret" .string, .withDefault "totp_enabled" .boolean (.bool false),
      .optional "backup_codes" .text,
      .withDefault "must_change_password" .boolean (.bool false),
      .withDefault "session_version" .integer (.int 0)] ++ timestampMixin
  | role =>
    [⟨"id", .integer, false, .autoincrement, false⟩, .required "name" .string,
      .required "description" .string]
  | userTenantRole =>
    [.uuid "id", .required "user_id" .string, .required "tenant_id" .string,
      .required "role_id" .integer, .serverNow "assigned_at", .optional "assigned_by" .string]
  | tenant =>
    [.uuid "id", .required "name" .string, .required "slug" .string,
      .optional "api_key_hash" .string, .optional "api_key_prefix" .string,
      .withDefault "is_active" .boolean (.bool true)] ++ timestampMixin
  | setting =>
    [.uuid "id", .required "scope" .string, .optional "scope_id" .string,
      .required "key" .string, .required "value_json" .text, .optional "updated_by" .string] ++
      timestampMixin
  | item =>
    [.uuid "id", .required "tenant_id" .string, .required "name" .string,
      .optional "description" .text, .withDefault "is_active" .boolean (.bool true),
      .optional "created_by" .string, .optional "search_vector" .text] ++ timestampMixin
  | auditLog =>
    [.uuid "id", .optional "tenant_id" .string, .required "user_id" .string,
      .required "action" .string, .required "target_type" .string,
      .required "target_id" .string, .optional "detail" .json,
      .withDefault "ip_address" .string (.str "unknown"), .serverNow "timestamp"]

/-- The column groups under a unique constraint, the primary key aside. -/
def uniques : Model → List (List String)
  | user => [["email"]]
  | role => [["name"]]
  | userTenantRole => [["user_id", "tenant_id"]]
  | tenant => [["name"], ["slug"]]
  | setting => [["scope", "scope_id", "key"]]
  | item => []
  | auditLog => []

def columnNames (m : Model) : List String := m.columns.map Column.name

/-- `Model.attribute`: the mapped classes have no other attributes to query by. -/
def attr (m : Model) (name : String) : Except Exc Column :=
  match m.columns.find? fun c => c.name = name with
  | some c => .ok c
  | none => .error (.python (.attributeError
      ("type object '" ++ m.className ++ "' has no attribute '" ++ name ++ "'")))

theorem columnNames_nodup (m : Model) : m.columnNames.Nodup := by
  cases m <;> decide

theorem tag_not_column (m : Model) : "_table" ∉ m.columnNames := by
  cases m <;> decide

end Model

inductive Backend where
  | sqlite | postgresql
  deriving DecidableEq, Repr

namespace Backend

/-- The datetimes a database returns: SQLite has no offsets, PostgreSQL returns UTC. -/
def offset : Backend → Option Int
  | sqlite => none
  | postgresql => some 0

def native (b : Backend) (d : DateTime) : Bool := d.utcoffset = b.offset

/-- How a datetime is stored. SQLite drops the offset and keeps the wall clock; PostgreSQL
converts an aware datetime to UTC and takes a naive one as UTC. -/
def bindDateTime : Backend → DateTime → Except Exc DateTime
  | sqlite, d => .ok (d.withOffset none (by simp))
  | postgresql, d =>
    match d.utcoffset with
    | none => .ok (d.withOffset (some 0) (by simp))
    | some 0 => .ok d
    | some o =>
      match (d.withOffset (some 0) (by simp)).add (-o * 1000000) with
      | .ok d => .ok d
      | .error e => .error (.python e)

/-- A datetime with the offset that a database gives to what it returns. -/
def restamp (b : Backend) (d : DateTime) : DateTime :=
  d.withOffset b.offset (by cases b <;> simp [offset])

theorem restamp_native (b : Backend) (d : DateTime) : native b (restamp b d) = true :=
  decide_eq_true rfl

theorem restamp_of_native (h : native b d = true) : restamp b d = d := by
  have ho : d.utcoffset = b.offset := of_decide_eq_true h
  cases d
  cases ho
  rfl

/-- What one database returned, another one stores with its own offset. -/
theorem bindDateTime_of_native (h : native b d = true) (b' : Backend) :
    bindDateTime b' d = .ok (restamp b' d) := by
  have ho : d.utcoffset = b.offset := of_decide_eq_true h
  cases b' with
  | sqlite => rfl
  | postgresql =>
    cases b with
    | sqlite =>
      simp only [offset] at ho
      simp only [bindDateTime, ho]
      rfl
    | postgresql =>
      simp only [offset] at ho
      simp only [bindDateTime, ho]
      rw [restamp_of_native (decide_eq_true ho)]

theorem isNaive_of_native (h : native b d = true) : d.isNaive = decide (b = sqlite) := by
  have ho : d.utcoffset = b.offset := of_decide_eq_true h
  rw [DateTime.isNaive, ho]
  cases b <;> rfl

end Backend

namespace Column

/-- The values a column of a database can hold. -/
def holds (b : Backend) (c : Column) : Val → Bool
  | .none => c.nullable
  | .bool _ => c.type = .boolean
  | .int _ => c.type = .integer
  | .str _ => c.type = .string || c.type = .text
  | .datetime d => c.type = .dateTime && b.native d
  | .json _ => c.type = .json

end Column

/-- A row of cells that has exactly the given columns, each with a value it can hold. -/
def fits (b : Backend) : List Column → Dict → Bool
  | [], [] => true
  | c :: cs, (k, v) :: r => k = c.name && c.holds b v && fits b cs r
  | _, _ => false

abbrev Row (b : Backend) (m : Model) := { r : Dict // fits b m.columns r = true }

namespace Row

def get (r : Row b m) (name : String) : Val := r.val.get name

def id (r : Row b m) : Val := r.get "id"

end Row

theorem fits_cons (h : fits b (c :: cs) r = true) :
    ∃ v r', r = (c.name, v) :: r' ∧ c.holds b v = true ∧ fits b cs r' = true := by
  cases r with
  | nil => cases h
  | cons p r' =>
    obtain ⟨k, v⟩ := p
    simp only [fits, Bool.and_eq_true, decide_eq_true_eq] at h
    obtain ⟨⟨hk, hv⟩, hr⟩ := h
    subst hk
    exact ⟨v, r', rfl, hv, hr⟩

theorem fits_names (h : fits b cs r = true) : r.map Prod.fst = cs.map Column.name := by
  induction cs generalizing r with
  | nil =>
    cases r with
    | nil => rfl
    | cons => cases h
  | cons c cs ih =>
    obtain ⟨v, r', rfl, _, hr⟩ := fits_cons h
    simp only [List.map_cons, ih hr]

theorem fits_lookup (h : fits b cs r = true) (hc : c ∈ cs)
    (hn : (cs.map Column.name).Nodup) :
    ∃ v, r.lookup c.name = some v ∧ c.holds b v = true := by
  have hn' : (r.map Prod.fst).Nodup := by rw [fits_names h]; exact hn
  have hmem : ∃ v, (c.name, v) ∈ r ∧ c.holds b v = true := by
    clear hn hn'
    induction cs generalizing r with
    | nil => cases hc
    | cons c' cs ih =>
      obtain ⟨v, r', rfl, hv, hr⟩ := fits_cons h
      rcases List.mem_cons.1 hc with rfl | hc
      · exact ⟨v, List.mem_cons_self, hv⟩
      · obtain ⟨w, hw, hh⟩ := ih hr hc
        exact ⟨w, List.mem_cons_of_mem _ hw, hh⟩
  obtain ⟨v, hv, hh⟩ := hmem
  exact ⟨v, lookup_of_mem hn' hv, hh⟩

theorem Row.lookup (r : Row b m) (hc : c ∈ m.columns) :
    r.val.lookup c.name = some (r.get c.name) ∧ c.holds b (r.get c.name) = true := by
  obtain ⟨v, hv, hh⟩ := fits_lookup r.property hc m.columnNames_nodup
  have : r.get c.name = v := by rw [Row.get, Dict.get, hv]; rfl
  rw [this]
  exact ⟨hv, hh⟩

/-- A text that must not be null is there. -/
theorem Row.get_str (r : Row b m) (hc : c ∈ m.columns) (ht : c.type = .string)
    (hn : c.nullable = false) : ∃ s, r.get c.name = .str s := by
  obtain ⟨-, hh⟩ := r.lookup hc
  cases hv : r.get c.name with
  | str s => exact ⟨s, rfl⟩
  | none =>
    rw [hv, Column.holds, hn] at hh
    cases hh
  | _ =>
    rw [hv] at hh
    simp only [Column.holds, ht, reduceCtorEq, decide_false, Bool.false_and,
      Bool.false_eq_true] at hh

/-- The models whose rows carry an `updated_at`. -/
def Model.timestamped : Model → Bool
  | user | tenant | setting | item => true
  | role | userTenantRole | auditLog => false

theorem Model.updated_at_mem (h : Model.timestamped m = true) :
    Column.updatedAt ∈ m.columns := by
  cases m <;> first | decide | cases h

theorem Row.updated_at (r : Row b m) (h : m.timestamped = true) :
    ∃ d, r.get "updated_at" = .datetime d ∧ b.native d = true := by
  obtain ⟨_, hh⟩ := r.lookup (Model.updated_at_mem h)
  change Column.holds b _ (r.get "updated_at") = true at hh
  cases hv : r.get "updated_at" with
  | datetime d =>
    rw [hv] at hh
    simp only [Column.holds, Bool.and_eq_true] at hh
    exact ⟨d, rfl, hh.2⟩
  | _ => rw [hv] at hh; cases hh

end ScottyCore
