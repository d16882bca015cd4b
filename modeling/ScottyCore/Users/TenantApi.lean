import ScottyCore.Lib.Raise
import ScottyCore.Users.Runs

namespace ScottyCore
open Python TransitionSystem
set_option autoImplicit true

/-! ## `require_role` -/

/-- `ROLE_HIERARCHY` -/
def RoleName.rank : RoleName → Nat
  | viewer => 1
  | analyst => 2
  | admin => 3
  | superadmin => 4

def hasMinimumRole (user_role minimum : RoleName) : Bool := minimum.rank ≤ user_role.rank

def requireRole (minimum : RoleName) (slug : String) (user : UserContext) : Except AppError Unit :=
  if user.is_superadmin then .ok ()
  else if slug = "" then .error (.forbidden "No tenant context")
  else
    match user.tenant_roles.lookup slug with
    | none =>
      .error (.forbidden ("Requires " ++ minimum.value ++ " role for tenant '" ++ slug ++ "'"))
    | some user_role =>
      if hasMinimumRole user_role minimum then .ok ()
      else .error (.forbidden ("Requires " ++ minimum.value ++ " role for tenant '" ++ slug ++ "'"))

def UserStore.getBySlug (store : UserStore) (slug : String) : Except AppError Tenant :=
  match store.tenants.find? fun t => t.slug = slug with
  | none => .error (.notFound "Tenant" slug)
  | some t => .ok t

/-! ## `api/v1/users.py`, the tenant endpoints -/

inductive TenantUsersCall where
  | list
  | create (data : UserCreate)
  | update (user_id : Uuid) (data : UserUpdate)
  | deactivate (user_id : Uuid)

/-- The store after a call to `/tenants/{slug}/users`. Listing reads it only. -/
def tenantUsers (auth : AuthService Token) (slug : String) (user : UserContext)
    (call : TenantUsersCall) (new_id : Uuid) (salt : Nat) (store : UserStore) :
    Except AppError UserStore := do
  requireRole .admin slug user
  let tenant ← store.getBySlug slug
  match call with
  | .list => return store
  | .create data => (store.createForTenant auth tenant.id data new_id salt).map Prod.snd
  | .update user_id data => store.updateForTenant tenant.id user_id data
  | .deactivate user_id => store.deactivateForTenant tenant.id user_id

/-- The caller is not superadmin, and admin of no tenant but one. -/
structure AdminOnlyOf (tenant : Tenant) (user : UserContext) : Prop where
  not_superadmin : user.is_superadmin = false
  only : ∀ slug role, user.tenant_roles.lookup slug = some role →
    hasMinimumRole role .admin = true → slug = tenant.slug

theorem AdminOnlyOf.slug_eq (h : AdminOnlyOf tenant user)
    (hr : requireRole .admin slug user = .ok ()) : slug = tenant.slug := by
  unfold requireRole at hr
  rw [h.not_superadmin, if_neg (by decide)] at hr
  split at hr
  · cases hr
  · split at hr
    · cases hr
    · rename_i role hrole
      split at hr
      · rename_i hmin
        exact h.only slug role hrole hmin
      · cases hr

/-- One call to the tenant endpoints by an admin of one tenant only. A call that fails changes
nothing. -/
inductive TenantStep (auth : AuthService Token) (tenant : Tenant) :
    UserStore → TenantUsersCall → UserStore → Prop where
  | ok : AdminOnlyOf tenant user →
      tenantUsers auth slug user call new_id salt store = .ok store' →
      TenantStep auth tenant store call store'
  | error : AdminOnlyOf tenant user →
      tenantUsers auth slug user call new_id salt store = .error e →
      TenantStep auth tenant store call store

/-! ## What a call changes -/

def UserStore.rolesOf (store : UserStore) (user_id : Uuid) : List UserTenantRole :=
  store.user_tenant_roles.filter fun utr => utr.user_id = user_id

def HasRole (store : UserStore) (user_id tenant_id : Uuid) : Prop :=
  ∃ utr ∈ store.rolesOf user_id, utr.tenant_id = tenant_id

structure Kept (before after : UserStore) (u : User) : Prop where
  row : u ∈ after.users
  roles : after.rolesOf u.id = before.rolesOf u.id

theorem rolesOf_assignRole (store : UserStore) (hne : user_id ≠ other) :
    (store.assignRole other tenant_id role_id).rolesOf user_id = store.rolesOf user_id := by
  unfold UserStore.assignRole UserStore.rolesOf
  rw [List.filter_append, List.filter_cons_of_neg (by simpa using hne.symm), List.filter_nil,
    List.append_nil]

/-- A pass that only changes elements that a filter drops, into others that it drops. -/
theorem filter_map_of_dropped {p : α → Bool} {f : α → α}
    (h : ∀ a, f a = a ∨ (p a = false ∧ p (f a) = false)) (l : List α) :
    (l.map f).filter p = l.filter p := by
  induction l with
  | nil => rfl
  | cons a l ih =>
    rw [List.map_cons, List.filter_cons, List.filter_cons, ih]
    rcases h a with ha | ⟨ha, hfa⟩
    · rw [ha]
    · rw [ha, hfa]
      rfl

theorem rolesOf_setTenantRole {store store' : UserStore} (hne : user_id ≠ other)
    (h : store.setTenantRole tenant_id other role = .ok store') :
    store'.rolesOf user_id = store.rolesOf user_id := by
  unfold UserStore.setTenantRole at h
  obtain ⟨r, _, h⟩ := bind_eq_ok.1 h
  split at h
  · cases h
    refine filter_map_of_dropped (fun utr => ?_) store.user_tenant_roles
    by_cases hutr : utr.user_id = other ∧ utr.tenant_id = tenant_id
    · rw [if_pos hutr]
      have hdrop : ¬ utr.user_id = user_id := fun he => hne (he.symm.trans hutr.1)
      exact .inr ⟨decide_eq_false hdrop, decide_eq_false hdrop⟩
    · exact .inl (if_neg hutr)
  · cases h
    exact rolesOf_assignRole store hne

theorem tenants_setTenantRole {store store' : UserStore}
    (h : store.setTenantRole tenant_id user_id role = .ok store') :
    store'.tenants = store.tenants := by
  obtain ⟨_, rfl⟩ := setTenantRole_ok h
  rfl

theorem kept_createForTenant {auth : AuthService Token} {store store' : UserStore}
    (hu : u ∈ store.users)
    (h : store.createForTenant auth tenant_id data new_id salt = .ok (v, store')) :
    Kept store store' u ∧ store'.tenants = store.tenants := by
  have hins := inserts_createForTenant h
  have hnew : u.id ≠ new_id := hins.id ▸ (UserTable.mem_insert (v := u) hins.users).2 u hu
  unfold UserStore.createForTenant at h
  split at h
  · cases h
  · obtain ⟨⟨w, inserted⟩, hinsert, h⟩ := bind_eq_ok.1 h
    obtain ⟨role, _, h⟩ := bind_eq_ok.1 h
    cases h
    obtain ⟨users, _, hr⟩ := map_eq_ok.1 hinsert
    cases hr
    refine ⟨⟨(UserTable.mem_insert hins.users).1.2 (.inl hu), ?_⟩, rfl⟩
    exact rolesOf_assignRole { store with users := users } hnew

/-- An update carries nothing that changes the row, or names a role that is not in the table. -/
def ChangesNothing (store : UserStore) (data : UserUpdate) (u : User) : Prop :=
  (∃ role e, data.role = some role ∧ store.getRoleByName role.value = .error e) ∨
    (data.role = none ∧ (∀ name, data.display_name = some name → name = u.display_name) ∧
      ∀ active, data.is_active = some active → active = true ∧ u.is_active = true)

theorem ChangesNothing.apply_eq
    (hname : ∀ name, data.display_name = some name → name = u.display_name)
    (hactive : ∀ active, data.is_active = some active → active = true ∧ u.is_active = true) :
    (UserStore.tenantChanges data u).apply u = u := by
  have hname' : data.display_name.getD u.display_name = u.display_name := by
    cases hd : data.display_name with
    | none => rfl
    | some name => exact hname name hd
  have hactive' : data.is_active.getD u.is_active = u.is_active := by
    cases hd : data.is_active with
    | none => rfl
    | some active => exact (hactive active hd).1.trans (hactive active hd).2.symm
  have hversion : data.is_active ≠ some false := fun hd => by cases (hactive false hd).1
  unfold UserStore.tenantChanges UserChanges.apply
  rw [hname', hactive', if_neg hversion]
  rfl

theorem kept_updateForTenant {store store' : UserStore} (hu : u ∈ store.users)
    (hout : user_id = u.id → ChangesNothing store data u)
    (h : store.updateForTenant tenant_id user_id data = .ok store') :
    Kept store store' u ∧ store'.tenants = store.tenants := by
  obtain ⟨v, hv, husers⟩ := users_updateForTenant h
  obtain ⟨hmem, rfl⟩ := UserTable.getById_eq_some.1 hv
  unfold UserStore.updateForTenant at h
  rw [hv] at h
  simp only at h
  have hrow : (v.id = u.id → (UserStore.tenantChanges data v).apply u = u) → u ∈ store'.users := by
    intro hsame
    rw [husers]
    refine UserTable.mem_update.2 ⟨u, hu, ?_⟩
    split
    · rename_i hid
      exact (hsame hid.symm).symm
    · rfl
  by_cases hid : v.id = u.id
  · obtain rfl := UserTable.eq_of_id hmem hu hid
    rcases hout rfl with ⟨role, e, hrole, herr⟩ | ⟨hrole, hname, hactive⟩
    · rw [hrole] at h
      obtain ⟨r, hr, _⟩ := bind_eq_ok.1 h
      cases herr.symm.trans hr
    · rw [hrole] at h
      cases h
      exact ⟨⟨hrow fun _ => ChangesNothing.apply_eq hname hactive, rfl⟩, rfl⟩
  · split at h
    · cases h
      exact ⟨⟨hrow fun h' => (hid h').elim, rfl⟩, rfl⟩
    · have hroles := rolesOf_setTenantRole (Ne.symm hid) h
      have htenants := tenants_setTenantRole h
      exact ⟨⟨hrow fun h' => (hid h').elim, hroles⟩, htenants⟩

/-- A call whose target, if it is a user without a role in the tenant, is left as it is. -/
def TargetsMember (tenant : Tenant) (store : UserStore) : TenantUsersCall → Prop
  | .update user_id data => ∀ u, store.getById user_id = some u →
      HasRole store user_id tenant.id ∨ ChangesNothing store data u
  | .deactivate user_id => ∀ u, store.getById user_id = some u → HasRole store user_id tenant.id
  | _ => True

theorem kept_step {auth : AuthService Token} {tenant : Tenant} {store store' : UserStore}
    (hslug : store.getBySlug tenant.slug = .ok tenant) (hu : u ∈ store.users)
    (hout : ¬ HasRole store u.id tenant.id)
    (h : Guarded (TenantStep auth tenant) (TargetsMember tenant) store call store') :
    Kept store store' u ∧ store'.tenants = store.tenants := by
  obtain ⟨hstep, hguard⟩ := h
  cases hstep with
  | error => exact ⟨⟨hu, rfl⟩, rfl⟩
  | ok hcaller hcall =>
    obtain ⟨_, hrole, hcall⟩ := bind_eq_ok.1 hcall
    obtain ⟨t, ht, hcall⟩ := bind_eq_ok.1 hcall
    rw [hcaller.slug_eq hrole, hslug] at ht
    cases ht
    have hget : store.getById u.id = some u := UserTable.getById_eq_some.2 ⟨hu, rfl⟩
    cases call with
    | list =>
      cases hcall
      exact ⟨⟨hu, rfl⟩, rfl⟩
    | create data =>
      obtain ⟨r, hcreate, rfl⟩ := map_eq_ok.1 hcall
      exact kept_createForTenant hu hcreate
    | update user_id data =>
      refine kept_updateForTenant hu ?_ hcall
      rintro rfl
      exact (hguard u hget).resolve_left hout
    | deactivate user_id =>
      refine kept_updateForTenant hu ?_ hcall
      rintro rfl
      exact (hout (hguard u hget)).elim

/-! ## Isolation -/

/-- The user's state, session version, name, hash and roles are as they were. -/
structure Isolated (before after : UserStore) (u : User) : Prop where
  row : ∃ v, after.getById u.id = some v ∧ v.is_active = u.is_active ∧
    v.session_version = u.session_version ∧ v.display_name = u.display_name ∧
    v.password_hash = u.password_hash
  roles : after.rolesOf u.id = before.rolesOf u.id

/-- In every run of calls by an admin of one tenant only, a user without a role in that tenant is
isolated. -/
def TenantsIsolated (auth : AuthService Token) : Prop :=
  ∀ tenant store calls store' u, store.getBySlug tenant.slug = .ok tenant →
    Run (TenantStep auth tenant) store calls store' → u ∈ store.users →
    ¬ HasRole store u.id tenant.id → Isolated store store' u

section

def acme : Tenant := { id := ⟨0xa⟩, name := "Acme", slug := "acme" }

def globex : Tenant := { id := ⟨0xb⟩, name := "Globex", slug := "globex" }

def ann : User where
  id := ⟨1⟩
  email := "ann@acme.org"
  password_hash := "h"
  display_name := "Ann"

def bob : User where
  id := ⟨2⟩
  email := "bob@globex.org"
  password_hash := "h"
  display_name := "Bob"

def twoTenants (bob : User) (h : bob.id = ⟨2⟩ ∧ bob.email = "bob@globex.org") : UserStore where
  users := ⟨[ann, bob], by simp [ann, h.1], by simp [ann, h.2]⟩
  roles := [⟨1, "viewer"⟩, ⟨3, "admin"⟩]
  user_tenant_roles := [⟨⟨1⟩, ⟨0xa⟩, 3⟩, ⟨⟨2⟩, ⟨0xb⟩, 1⟩]
  tenants := [acme, globex]
  login_attempts := []

def annContext : UserContext := (twoTenants bob ⟨rfl, rfl⟩).buildUserContext ann

theorem ann_adminOnlyOf : AdminOnlyOf acme annContext := by
  refine ⟨rfl, fun slug role hrole _ => ?_⟩
  have hroles : annContext.tenant_roles = [("acme", .admin)] := by decide +kernel
  rw [hroles, List.lookup_cons] at hrole
  split at hrole
  · rename_i heq
    exact eq_of_beq heq
  · cases hrole

end

end ScottyCore
