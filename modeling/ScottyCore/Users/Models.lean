import ScottyCore.Lib.DateTime
import ScottyCore.Lib.KeyedTable
import ScottyCore.Lib.Text

namespace ScottyCore
open Python
set_option autoImplicit true

/-! ## `core/exceptions.py` -/

/-- The errors of the services. What no service raises itself is `unexpected`. -/
inductive AppError where
  | notFound (resource identifier : String)
  | forbidden (message : String)
  | conflict (message : String)
  | authentication (message : String)
  | integrity (message : String)
  | unexpected (e : Python.Error)
  deriving DecidableEq

/-! ## `services/users/models.py` -/

/-- The columns of `users` that the services read. The JSON array in `backup_codes` is the list
of its strings. -/
structure User where
  id : Uuid
  email : String
  password_hash : String
  display_name : String
  is_active : Bool := true
  is_superadmin : Bool := false
  totp_secret : Option String := none
  totp_enabled : Bool := false
  backup_codes : Option (List String) := none
  session_version : Int := 0
  deriving DecidableEq

/-- The columns that one UPDATE sets. -/
structure UserChanges where
  password_hash : Option String := none
  display_name : Option String := none
  is_active : Option Bool := none
  is_superadmin : Option Bool := none
  totp_secret : Option (Option String) := none
  totp_enabled : Option Bool := none
  backup_codes : Option (Option (List String)) := none
  session_version : Option Int := none

/-- `repo.update`: only what is given is set. The key and the email never are. -/
def UserChanges.apply (c : UserChanges) (u : User) : User :=
  { u with
    password_hash := c.password_hash.getD u.password_hash
    display_name := c.display_name.getD u.display_name
    is_active := c.is_active.getD u.is_active
    is_superadmin := c.is_superadmin.getD u.is_superadmin
    totp_secret := c.totp_secret.getD u.totp_secret
    totp_enabled := c.totp_enabled.getD u.totp_enabled
    backup_codes := c.backup_codes.getD u.backup_codes
    session_version := c.session_version.getD u.session_version }

@[simp] theorem UserChanges.apply_id (c : UserChanges) (u : User) : (c.apply u).id = u.id := rfl

@[simp] theorem UserChanges.apply_email (c : UserChanges) (u : User) :
    (c.apply u).email = u.email := rfl

/-- The table `users`, under its primary key and its unique index on `email`. -/
structure UserTable where
  rows : List User
  nodup_id : (rows.map User.id).Nodup
  nodup_email : (rows.map User.email).Nodup

namespace UserTable

def empty : UserTable := ⟨[], List.nodup_nil, List.nodup_nil⟩

instance : Membership User UserTable := ⟨fun t u => u ∈ t.rows⟩

theorem mem_rows {t : UserTable} : u ∈ t.rows ↔ u ∈ t := Iff.rfl

def byId (t : UserTable) : KeyedTable User User.id := ⟨t.rows, t.nodup_id⟩

def byEmail (t : UserTable) : KeyedTable User User.email := ⟨t.rows, t.nodup_email⟩

/-- `session.get(User, user_id)` -/
def getById (t : UserTable) (user_id : Uuid) : Option User := t.byId.find user_id

/-- `select(User).where(User.email == email)`, first row -/
def getByEmail (t : UserTable) (email : String) : Option User := t.byEmail.find email

theorem getById_eq_some {t : UserTable} : t.getById user_id = some u ↔ u ∈ t ∧ u.id = user_id :=
  KeyedTable.find_eq_some_iff

theorem getByEmail_eq_some {t : UserTable} :
    t.getByEmail email = some u ↔ u ∈ t ∧ u.email = email :=
  KeyedTable.find_eq_some_iff

theorem eq_of_id {t : UserTable} (hu : u ∈ t) (hv : v ∈ t) (h : u.id = v.id) : u = v :=
  KeyedTable.eq_of_mem (t := t.byId) hu hv h

theorem eq_of_email {t : UserTable} (hu : u ∈ t) (hv : v ∈ t) (h : u.email = v.email) : u = v :=
  KeyedTable.eq_of_mem (t := t.byEmail) hu hv h

theorem nodup_concat {key : User → κ} {rows : List User} (hn : (rows.map key).Nodup)
    (h : key u ∉ rows.map key) : ((rows ++ [u]).map key).Nodup := by
  rw [List.map_append, List.map_singleton, ← List.concat_eq_append]
  exact (List.nodup_concat _ _).2 ⟨h, hn⟩

def insert (t : UserTable) (u : User) : Except AppError UserTable :=
  if h : u.id ∈ t.rows.map User.id ∨ u.email ∈ t.rows.map User.email then
    .error (.integrity "UNIQUE constraint failed: users")
  else
    .ok ⟨t.rows ++ [u], nodup_concat t.nodup_id fun hm => h (.inl hm),
      nodup_concat t.nodup_email fun hm => h (.inr hm)⟩

def updateRows (rows : List User) (user_id : Uuid) (c : UserChanges) : List User :=
  rows.map fun u => if u.id = user_id then c.apply u else u

theorem map_updateRows {key : User → κ} (h : ∀ (c : UserChanges) u, key (c.apply u) = key u)
    (rows : List User) : (updateRows rows user_id c).map key = rows.map key := by
  rw [updateRows, List.map_map]
  apply List.map_congr_left
  intro u _
  rw [Function.comp_apply]
  split
  · exact h c u
  · rfl

def update (t : UserTable) (user_id : Uuid) (c : UserChanges) : UserTable where
  rows := updateRows t.rows user_id c
  nodup_id := by
    rw [map_updateRows UserChanges.apply_id]
    exact t.nodup_id
  nodup_email := by
    rw [map_updateRows UserChanges.apply_email]
    exact t.nodup_email

theorem mem_insert {t t' : UserTable} (h : t.insert u = .ok t') :
    (v ∈ t' ↔ v ∈ t ∨ v = u) ∧ (∀ w ∈ t, w.id ≠ u.id) := by
  unfold insert at h
  split at h
  · cases h
  · rename_i hnew
    cases h
    refine ⟨by simp [← mem_rows], fun w hw he => hnew (.inl ?_)⟩
    exact List.mem_map.2 ⟨w, hw, he⟩

theorem mem_update {t : UserTable} :
    v ∈ t.update user_id c ↔ ∃ u ∈ t, v = if u.id = user_id then c.apply u else u := by
  change v ∈ updateRows t.rows user_id c ↔ _
  simp only [updateRows, List.mem_map, mem_rows, eq_comm]

theorem mem_update_of_ne {t : UserTable} (hu : u ∈ t) (hne : u.id ≠ user_id) :
    u ∈ t.update user_id c :=
  mem_update.2 ⟨u, hu, (if_neg hne).symm⟩

theorem getById_update {t : UserTable} (h : t.getById user_id = some u) :
    (t.update user_id c).getById user_id = some (c.apply u) := by
  obtain ⟨hu, rfl⟩ := getById_eq_some.1 h
  exact getById_eq_some.2 ⟨mem_update.2 ⟨u, hu, (if_pos rfl).symm⟩, rfl⟩

theorem exists_id_update {t : UserTable} (h : ∃ u, u ∈ t ∧ u.id = i) (user_id : Uuid)
    (c : UserChanges) : ∃ u, u ∈ t.update user_id c ∧ u.id = i := by
  obtain ⟨u, hu, rfl⟩ := h
  refine ⟨_, mem_update.2 ⟨u, hu, rfl⟩, ?_⟩
  split
  · rfl
  · rfl

end UserTable

/-! ## The other tables of the user services -/

inductive RoleName where
  | superadmin | admin | analyst | viewer
  deriving DecidableEq, Repr

def RoleName.value : RoleName → String
  | superadmin => "superadmin"
  | admin => "admin"
  | analyst => "analyst"
  | viewer => "viewer"

structure Role where
  id : Int
  name : String

structure UserTenantRole where
  user_id : Uuid
  tenant_id : Uuid
  role_id : Int

structure Tenant where
  id : Uuid
  name : String
  slug : String
  api_key_hash : Option String := none
  api_key_prefix : Option String := none
  is_active : Bool := true

structure LoginAttempt where
  email : String
  success : Bool
  ip_address : String
  attempted_at : Int
  deriving DecidableEq

/-- The database of the user and auth services. -/
structure UserStore where
  users : UserTable
  roles : List Role
  user_tenant_roles : List UserTenantRole
  tenants : List Tenant
  login_attempts : List LoginAttempt

end ScottyCore
