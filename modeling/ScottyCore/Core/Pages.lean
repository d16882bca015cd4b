import Mathlib.Data.String.Basic
import ScottyCore.Items.Service
import ScottyCore.Lib.Json
import ScottyCore.Lib.Paging

namespace ScottyCore
open Python Paging
set_option autoImplicit true

/-! ## `core/schemas.py` and the filters -/

structure PaginationParams where
  page : Nat
  per_page : Nat
  page_pos : 1 ≤ page
  per_page_pos : 1 ≤ per_page
  per_page_le : per_page ≤ 100

def PaginationParams.offset (p : PaginationParams) : Nat := (p.page - 1) * p.per_page

structure UserFilter extends PaginationParams where
  is_active : Option Bool
  search : Option String

structure AuditLogFilter extends PaginationParams where
  user_id : Option Uuid
  action : Option String
  target_type : Option String
  date_from : Option DateTime
  date_to : Option DateTime

/-- The same filters on another page. -/
def UserFilter.onPage (f : UserFilter) (page : Nat) (h : 1 ≤ page) : UserFilter :=
  { f with page, page_pos := h }

@[inherit_doc UserFilter.onPage]
def ItemFilter.onPage (f : ItemFilter) (page : Nat) (h : 1 ≤ page) : ItemFilter :=
  { f with page, page_pos := h }

@[inherit_doc UserFilter.onPage]
def AuditLogFilter.onPage (f : AuditLogFilter) (page : Nat) (h : 1 ≤ page) : AuditLogFilter :=
  { f with page, page_pos := h }

/-! ## The database -/

/-- What the database computes with texts. Collations are orders in which texts may tie; that of
emails is the one of their unique index. -/
structure ListSql extends ItemSql where
  /-- `value LIKE pattern` -/
  like : String → String → Bool
  emailLe : String → String → Bool
  name_total : ∀ s t, nameLe s t = true ∨ nameLe t s = true
  name_trans : ∀ s t u, nameLe s t = true → nameLe t u = true → nameLe s u = true
  email_total : ∀ s t, emailLe s t = true ∨ emailLe t s = true
  email_trans : ∀ s t u, emailLe s t = true → emailLe t u = true → emailLe s u = true
  email_unique : ∀ s t, emailLe s t = true → emailLe t s = true → s = t

/-- How one query with an `ORDER BY` is answered: in any order of the rows that follows it. -/
structure OrderBy (le : ρ → ρ → Prop) where
  sort : List ρ → List ρ
  listing : ∀ rows, Listing le rows (sort rows)

/-- The tables `users` and `user_tenant_roles`. -/
structure Members where
  users : UserTable
  user_tenant_roles : List UserTenantRole
  unique : (user_tenant_roles.map fun utr => (utr.user_id, utr.tenant_id)).Nodup

structure AuditLog where
  id : Uuid
  tenant_id : Option Uuid
  user_id : Uuid
  action : String
  target_type : String
  target_id : String
  detail : Option JsonDict
  ip_address : String
  timestamp : DateTime

abbrev AuditTable := KeyedTable AuditLog AuditLog.id

/-! ## The repositories -/

/-- A filter that is given: neither `None` nor an empty text. -/
def whereGiven (filter : Option String) (p : String → Bool) : Bool :=
  (filter.filter (· ≠ "")).all p

abbrev MemberRow := User × UserTenantRole

namespace UserRepository

variable (sql : ListSql)

/-- `ORDER BY users.email` -/
def Le (r r' : MemberRow) : Prop := sql.emailLe r.1.email r'.1.email = true

/-- `select(UserTenantRole).where(UserTenantRole.tenant_id == tenant_id)` -/
def memberships (tenant_id : Uuid) (t : Members) : List UserTenantRole :=
  t.user_tenant_roles.filter fun utr => utr.tenant_id = tenant_id

/-- The join of these with their users. -/
def joined (tenant_id : Uuid) (t : Members) : List MemberRow :=
  (memberships tenant_id t).filterMap fun utr => (t.users.getById utr.user_id).map fun u => (u, utr)

def hasStatus (is_active : Option Bool) (r : MemberRow) : Bool :=
  is_active.all fun b => r.1.is_active = b

/-- `User.email.ilike(like) | User.display_name.ilike(like)` -/
def isFound (search : Option String) (r : MemberRow) : Bool :=
  whereGiven search fun s =>
    sql.ilike r.1.email ("%" ++ s ++ "%") || sql.ilike r.1.display_name ("%" ++ s ++ "%")

def listForTenant (order : OrderBy (Le sql)) (tenant_id : Uuid) (filters : UserFilter)
    (t : Members) : List MemberRow × Nat :=
  let query := (joined tenant_id t).filter (hasStatus filters.is_active)
  let total :=
    match filters.is_active with
    | none => (memberships tenant_id t).length -- without the join
    | some _ => query.length
  let query := query.filter (isFound sql filters.search)
  (((order.sort query).drop filters.offset).take filters.per_page, total)

/-- The rows that satisfy all filters. -/
def admitted (tenant_id : Uuid) (filters : UserFilter) (t : Members) : List MemberRow :=
  (joined tenant_id t).filter fun r =>
    hasStatus filters.is_active r && isFound sql filters.search r

end UserRepository

namespace ItemRepository

variable (sql : ListSql)

/-- `ORDER BY items.name` -/
def Le (i j : Item) : Prop := sql.nameLe i.name j.name = true

def hasStatus (is_active : Option Bool) (i : Item) : Bool :=
  is_active.all fun b => i.is_active = b

def isFound (search : Option String) (i : Item) : Bool :=
  whereGiven search fun s => isLike sql.toItemSql ("%" ++ s ++ "%") i

/-- `list`, where the database may order rows with one name as it likes. -/
def listOrdered (order : OrderBy (Le sql)) (tenant_id : Uuid) (filters : ItemFilter)
    (t : ItemTable) : List Item × Nat :=
  let query := (ofTenant tenant_id t).filter (hasStatus filters.is_active)
  let query := query.filter (isFound sql filters.search)
  (((order.sort query).drop filters.offset).take filters.per_page, query.length)

/-- The rows that satisfy all filters. -/
def admitted (tenant_id : Uuid) (filters : ItemFilter) (t : ItemTable) : List Item :=
  (ofTenant tenant_id t).filter fun i =>
    hasStatus filters.is_active i && isFound sql filters.search i

end ItemRepository

namespace AuditRepository

variable (sql : ListSql)

/-- `ORDER BY audit_log.timestamp DESC` -/
def Le (r r' : AuditLog) : Prop := r'.timestamp.instant ≤ r.timestamp.instant

def isAction (action : String) (r : AuditLog) : Bool :=
  if '.' ∈ action.toList then r.action = action else sql.like r.action (action ++ ".%")

/-- The conditions of both queries. -/
def isFound (tenant_id : Option Uuid) (filters : AuditLogFilter) (r : AuditLog) : Bool :=
  (tenant_id.all fun id => r.tenant_id = some id) &&
    (filters.user_id.all fun id => r.user_id = id) &&
    whereGiven filters.action (fun action => isAction sql action r) &&
    (filters.date_from.all fun d => d.instant ≤ r.timestamp.instant) &&
    (filters.date_to.all fun d => r.timestamp.instant ≤ d.instant)

def list (order : OrderBy Le) (tenant_id : Option Uuid) (filters : AuditLogFilter)
    (t : AuditTable) : List AuditLog × Nat :=
  let query := t.rows.filter (isFound sql tenant_id filters)
  (((order.sort query).drop filters.offset).take filters.per_page, query.length)

def hasTarget (target_type : Option String) (r : AuditLog) : Bool :=
  whereGiven target_type fun target => r.target_type = target

/-- The rows that satisfy all filters that the endpoint takes. -/
def admitted (tenant_id : Option Uuid) (filters : AuditLogFilter) (t : AuditTable) :
    List AuditLog :=
  (t.rows.filter (isFound sql tenant_id filters)).filter (hasTarget filters.target_type)

end AuditRepository

/-! ## Complete lists -/

/-- The total is that of the rows, and all pages together are the rows, in whatever orders the
pages were answered. -/
structure CompleteList (le : ρ → ρ → Prop) (per_page : Nat) (rows : List ρ)
    (list : OrderBy le → (page : Nat) → 1 ≤ page → List ρ × Nat) : Prop where
  total : ∀ order page h, (list order page h).2 = rows.length
  pages : ∀ orders : Nat → OrderBy le,
    ((List.range (pageCount per_page rows.length)).flatMap fun k =>
      (list (orders k) (k + 1) (Nat.le_add_left 1 k)).1).Perm rows

/-- No page boundary parts two rows that tie. -/
def TiesTogether (le : ρ → ρ → Prop) (per_page : Nat) (rows : List ρ) : Prop :=
  ∀ j, 0 < j * per_page → j * per_page < rows.length → Separated le rows (j * per_page)

section
variable {le : ρ → ρ → Prop} {rows listed : List ρ}

theorem exists_orderBy [IsTrans ρ le] [Std.Total le] (h : Listing le rows listed) :
    ∃ order : OrderBy le, order.sort rows = listed := by
  classical
  choose sort hsort using exists_listing le
  refine ⟨⟨fun rows' => if rows' = rows then listed else sort rows', ?_⟩, if_pos rfl⟩
  intro rows'
  split
  · rename_i heq
    rw [heq]
    exact h
  · exact hsort rows'

/-- A list that pages through its rows is complete where it counts them and ties stay together. -/
theorem completeList_iff [IsTrans ρ le] [Std.Total le] {per_page total : Nat}
    (hpp : 1 ≤ per_page) (hnodup : rows.Nodup)
    {list : OrderBy le → (page : Nat) → 1 ≤ page → List ρ × Nat}
    (hlist : ∀ order page h, list order page h =
      (((order.sort rows).drop ((page - 1) * per_page)).take per_page, total)) :
    CompleteList le per_page rows list ↔
      total = rows.length ∧ TiesTogether le per_page rows := by
  have hpages : ∀ (count : Nat) (orders : Nat → OrderBy le),
      ((List.range count).flatMap fun k => (list (orders k) (k + 1) (Nat.le_add_left 1 k)).1) =
        pages per_page count fun k => (orders k).sort rows := by
    intro count orders
    simp only [hlist]
    rfl
  rw [TiesTogether, ← complete_iff hpp hnodup]
  constructor
  · intro h
    refine ⟨?_, fun listed hlisted => ?_⟩
    · obtain ⟨listed, hl⟩ := exists_listing le rows
      obtain ⟨order, -⟩ := exists_orderBy hl
      have htotal := h.total order 1 (Nat.le_refl 1)
      rwa [hlist] at htotal
    · choose orders horders using fun k => exists_orderBy (hlisted k)
      have hperm := h.pages orders
      rw [hpages] at hperm
      simpa only [horders] using hperm
  · rintro ⟨htotal, hcomplete⟩
    refine ⟨fun order page h => ?_, fun orders => ?_⟩
    · rw [hlist]
      exact htotal
    · rw [hpages]
      exact hcomplete _ fun k => (orders k).listing rows

/-- Where the total is that of other rows, the list is not complete. -/
theorem total_eq_of_complete [IsTrans ρ le] [Std.Total le] {per_page total : Nat}
    {list : OrderBy le → (page : Nat) → 1 ≤ page → List ρ × Nat}
    (hlist : ∀ order page h, (list order page h).2 = total)
    (h : CompleteList le per_page rows list) : total = rows.length := by
  obtain ⟨listed, hl⟩ := exists_listing le rows
  obtain ⟨order, -⟩ := exists_orderBy hl
  rw [← h.total order 1 (Nat.le_refl 1), hlist]

end

/-! ## The three lists -/

section
variable (sql : ListSql)

instance : IsTrans MemberRow (UserRepository.Le sql) :=
  ⟨fun _ _ _ => sql.email_trans _ _ _⟩

instance : Std.Total (UserRepository.Le sql) :=
  ⟨fun _ _ => sql.email_total _ _⟩

instance : IsTrans Item (ItemRepository.Le sql) :=
  ⟨fun _ _ _ => sql.name_trans _ _ _⟩

instance : Std.Total (ItemRepository.Le sql) :=
  ⟨fun _ _ => sql.name_total _ _⟩

instance : IsTrans AuditLog AuditRepository.Le :=
  ⟨fun _ _ _ h h' => Int.le_trans h' h⟩

instance : Std.Total AuditRepository.Le :=
  ⟨fun _ _ => Int.le_total _ _⟩

def UsersComplete (members : Members) (tenant_id : Uuid) (filters : UserFilter) : Prop :=
  CompleteList (UserRepository.Le sql) filters.per_page
    (UserRepository.admitted sql tenant_id filters members)
    fun order page h =>
      UserRepository.listForTenant sql order tenant_id (filters.onPage page h) members

def ItemsComplete (items : ItemTable) (tenant_id : Uuid) (filters : ItemFilter) : Prop :=
  CompleteList (ItemRepository.Le sql) filters.per_page
    (ItemRepository.admitted sql tenant_id filters items)
    fun order page h => ItemRepository.listOrdered sql order tenant_id (filters.onPage page h) items

def AuditComplete (audit : AuditTable) (tenant_id : Option Uuid) (filters : AuditLogFilter) : Prop :=
  CompleteList AuditRepository.Le filters.per_page
    (AuditRepository.admitted sql tenant_id filters audit)
    fun order page h => AuditRepository.list sql order tenant_id (filters.onPage page h) audit

theorem itemsComplete_iff (items : ItemTable) (tenant_id : Uuid) (filters : ItemFilter) :
    ItemsComplete sql items tenant_id filters ↔
      TiesTogether (ItemRepository.Le sql) filters.per_page
        (ItemRepository.admitted sql tenant_id filters items) := by
  have hrows : ((ItemRepository.ofTenant tenant_id items).filter
      (ItemRepository.hasStatus filters.is_active)).filter
        (ItemRepository.isFound sql filters.search) =
      ItemRepository.admitted sql tenant_id filters items := by
    rw [ItemRepository.admitted, List.filter_filter]
    apply List.filter_congr
    intro i _
    rw [Bool.and_comm]
  have hnodup : (ItemRepository.admitted sql tenant_id filters items).Nodup :=
    (List.Nodup.of_map _ items.nodup).sublist (List.filter_sublist.trans List.filter_sublist)
  have hlist : ∀ (order : OrderBy (ItemRepository.Le sql)) (page : Nat) (h : 1 ≤ page),
      ItemRepository.listOrdered sql order tenant_id (filters.onPage page h) items =
        (((order.sort (ItemRepository.admitted sql tenant_id filters items)).drop
          ((page - 1) * filters.per_page)).take filters.per_page,
          (ItemRepository.admitted sql tenant_id filters items).length) := by
    intro order page h
    rw [← hrows]
    rfl
  rw [ItemsComplete, completeList_iff filters.per_page_pos hnodup hlist, and_iff_right rfl]

theorem auditComplete_iff (audit : AuditTable) (tenant_id : Option Uuid)
    (filters : AuditLogFilter) :
    AuditComplete sql audit tenant_id filters ↔
      (∀ r ∈ audit.rows.filter (AuditRepository.isFound sql tenant_id filters),
        AuditRepository.hasTarget filters.target_type r = true) ∧
      TiesTogether AuditRepository.Le filters.per_page
        (audit.rows.filter (AuditRepository.isFound sql tenant_id filters)) := by
  have hnodup : (audit.rows.filter (AuditRepository.isFound sql tenant_id filters)).Nodup :=
    (List.Nodup.of_map _ audit.nodup).sublist List.filter_sublist
  have hlist : ∀ (order : OrderBy AuditRepository.Le) (page : Nat) (h : 1 ≤ page),
      AuditRepository.list sql order tenant_id (filters.onPage page h) audit =
        (((order.sort (audit.rows.filter (AuditRepository.isFound sql tenant_id filters))).drop
          ((page - 1) * filters.per_page)).take filters.per_page,
          (audit.rows.filter (AuditRepository.isFound sql tenant_id filters)).length) :=
    fun _ _ _ => rfl
  have hiff := completeList_iff filters.per_page_pos hnodup hlist
  by_cases htarget : ∀ r ∈ audit.rows.filter (AuditRepository.isFound sql tenant_id filters),
      AuditRepository.hasTarget filters.target_type r = true
  · rw [AuditComplete, AuditRepository.admitted, List.filter_eq_self.2 htarget, hiff,
      and_iff_right rfl, and_iff_right htarget]
  · apply iff_of_false _ fun h => htarget h.1
    intro h
    have htotal : (audit.rows.filter (AuditRepository.isFound sql tenant_id filters)).length =
        (AuditRepository.admitted sql tenant_id filters audit).length :=
      total_eq_of_complete (fun _ _ _ => rfl) h
    exact htarget (List.length_filter_eq_length_iff.1 htotal.symm)

theorem mem_joined {members : Members} : r ∈ UserRepository.joined tenant_id members ↔
    r.2 ∈ UserRepository.memberships tenant_id members ∧
      members.users.getById r.2.user_id = some r.1 := by
  rw [UserRepository.joined, List.mem_filterMap]
  constructor
  · rintro ⟨utr, hutr, hr⟩
    obtain ⟨u, hu, rfl⟩ := Option.map_eq_some_iff.1 hr
    exact ⟨hutr, hu⟩
  · rintro ⟨hutr, hu⟩
    exact ⟨r.2, hutr, by rw [hu]; rfl⟩

theorem nodup_joined (tenant_id : Uuid) (members : Members) :
    (UserRepository.joined tenant_id members).Nodup := by
  apply List.Nodup.filterMap
  · intro utr utr' r hr hr'
    obtain ⟨u, -, rfl⟩ := Option.map_eq_some_iff.1 hr
    obtain ⟨u', -, heq⟩ := Option.map_eq_some_iff.1 hr'
    exact (Prod.mk.inj heq).2.symm
  · exact (List.Nodup.of_map _ members.unique).sublist List.filter_sublist

/-- Rows of one tenant with one email are one row. -/
theorem eq_of_email {members : Members} (hr : r ∈ UserRepository.joined tenant_id members)
    (hr' : r' ∈ UserRepository.joined tenant_id members) (h : r.1.email = r'.1.email) : r = r' := by
  obtain ⟨hutr, hu⟩ := mem_joined.1 hr
  obtain ⟨hutr', hu'⟩ := mem_joined.1 hr'
  obtain ⟨hmem, hid⟩ := UserTable.getById_eq_some.1 hu
  obtain ⟨hmem', hid'⟩ := UserTable.getById_eq_some.1 hu'
  obtain ⟨hutr, htenant⟩ := List.mem_filter.1 hutr
  obtain ⟨hutr', htenant'⟩ := List.mem_filter.1 hutr'
  have huser : r.1 = r'.1 := UserTable.eq_of_email hmem hmem' h
  have hkey : (r.2.user_id, r.2.tenant_id) = (r'.2.user_id, r'.2.tenant_id) := by
    rw [← hid, ← hid', huser, of_decide_eq_true htenant, of_decide_eq_true htenant']
  exact Prod.ext huser (List.inj_on_of_nodup_map members.unique hutr hutr' hkey)

theorem length_joined_eq_iff (tenant_id : Uuid) (members : Members) :
    (UserRepository.joined tenant_id members).length =
        (UserRepository.memberships tenant_id members).length ↔
      ∀ utr ∈ UserRepository.memberships tenant_id members,
        (members.users.getById utr.user_id).isSome = true := by
  rw [UserRepository.joined, List.filterMap_length_eq_length]
  simp only [Option.isSome_map]

/-- What the users' count query does not look at: the search, and without a status the users. -/
def CountsAdmitted (members : Members) (tenant_id : Uuid) (filters : UserFilter) : Prop :=
  (filters.is_active = none → ∀ utr ∈ UserRepository.memberships tenant_id members,
    (members.users.getById utr.user_id).isSome = true) ∧
  ∀ r ∈ (UserRepository.joined tenant_id members).filter
      (UserRepository.hasStatus filters.is_active),
    UserRepository.isFound sql filters.search r = true

theorem admitted_eq_filter (members : Members) (tenant_id : Uuid) (filters : UserFilter) :
    UserRepository.admitted sql tenant_id filters members =
      ((UserRepository.joined tenant_id members).filter
        (UserRepository.hasStatus filters.is_active)).filter
          (UserRepository.isFound sql filters.search) := by
  rw [UserRepository.admitted, List.filter_filter]
  apply List.filter_congr
  intro r _
  rw [Bool.and_comm]

/-- The total of the users' list. -/
def countMembers (members : Members) (tenant_id : Uuid) (is_active : Option Bool) : Nat :=
  match is_active with
  | none => (UserRepository.memberships tenant_id members).length
  | some _ => ((UserRepository.joined tenant_id members).filter
      (UserRepository.hasStatus is_active)).length

theorem countMembers_eq_iff (members : Members) (tenant_id : Uuid) (filters : UserFilter) :
    countMembers members tenant_id filters.is_active =
        (UserRepository.admitted sql tenant_id filters members).length ↔
      CountsAdmitted sql members tenant_id filters := by
  rw [admitted_eq_filter, CountsAdmitted, ← length_joined_eq_iff,
    ← List.length_filter_eq_length_iff]
  have hfound := List.length_filter_le (UserRepository.isFound sql filters.search)
    ((UserRepository.joined tenant_id members).filter
      (UserRepository.hasStatus filters.is_active))
  cases hstatus : filters.is_active with
  | none =>
    have hall : (UserRepository.joined tenant_id members).filter (UserRepository.hasStatus none) =
        UserRepository.joined tenant_id members := List.filter_eq_self.2 fun _ _ => rfl
    have hjoined : (UserRepository.joined tenant_id members).length ≤
        (UserRepository.memberships tenant_id members).length := List.length_filterMap_le _ _
    rw [hstatus, hall] at hfound
    rw [countMembers, hall]
    simp only [forall_const]
    omega
  | some b =>
    rw [countMembers]
    simp only [reduceCtorEq, false_implies, true_and]
    exact eq_comm

theorem usersComplete_iff (members : Members) (tenant_id : Uuid) (filters : UserFilter) :
    UsersComplete sql members tenant_id filters ↔ CountsAdmitted sql members tenant_id filters := by
  have hrows := admitted_eq_filter sql members tenant_id filters
  have hsub : (UserRepository.admitted sql tenant_id filters members).Sublist
      (UserRepository.joined tenant_id members) := List.filter_sublist
  have hnodup := (nodup_joined tenant_id members).sublist hsub
  have hlist : ∀ (order : OrderBy (UserRepository.Le sql)) (page : Nat) (h : 1 ≤ page),
      UserRepository.listForTenant sql order tenant_id (filters.onPage page h) members =
        (((order.sort (UserRepository.admitted sql tenant_id filters members)).drop
          ((page - 1) * filters.per_page)).take filters.per_page,
          countMembers members tenant_id filters.is_active) := by
    intro order page h
    rw [hrows]
    rfl
  have hties : TiesTogether (UserRepository.Le sql) filters.per_page
      (UserRepository.admitted sql tenant_id filters members) := by
    intro j _ hlt
    apply separated_of_antisymm hnodup _ (Nat.le_of_lt hlt)
    intro r hr r' hr' hle hle'
    exact eq_of_email (hsub.subset hr) (hsub.subset hr') (sql.email_unique _ _ hle hle')
  rw [UsersComplete, completeList_iff filters.per_page_pos hnodup hlist, and_iff_left hties,
    countMembers_eq_iff]

/-- The users' list is complete where the count skips nothing, the audit list where the target type
excludes nothing; for items and audit records, no page boundary may part rows that tie. -/
theorem listsComplete_iff (members : Members) (items : ItemTable) (audit : AuditTable)
    (tenant_id : Uuid) (audit_tenant : Option Uuid) (user_filter : UserFilter)
    (item_filter : ItemFilter) (audit_filter : AuditLogFilter) :
    (UsersComplete sql members tenant_id user_filter ↔
      CountsAdmitted sql members tenant_id user_filter) ∧
    (ItemsComplete sql items tenant_id item_filter ↔
      TiesTogether (ItemRepository.Le sql) item_filter.per_page
        (ItemRepository.admitted sql tenant_id item_filter items)) ∧
    (AuditComplete sql audit audit_tenant audit_filter ↔
      (∀ r ∈ audit.rows.filter (AuditRepository.isFound sql audit_tenant audit_filter),
        AuditRepository.hasTarget audit_filter.target_type r = true) ∧
      TiesTogether AuditRepository.Le audit_filter.per_page
        (audit.rows.filter (AuditRepository.isFound sql audit_tenant audit_filter))) :=
  ⟨usersComplete_iff sql members tenant_id user_filter,
    itemsComplete_iff sql items tenant_id item_filter,
    auditComplete_iff sql audit audit_tenant audit_filter⟩

/-- The list of `ItemRepository.list`, which sorts stably, is one of the answers. -/
theorem list_eq_listOrdered (tenant_id : Uuid) (filters : ItemFilter) (items : ItemTable) :
    ∃ order, ItemRepository.list sql.toItemSql tenant_id filters items =
      ItemRepository.listOrdered sql order tenant_id filters items := by
  refine ⟨⟨fun rows => rows.mergeSort fun i j => sql.nameLe i.name j.name, fun rows => ?_⟩, rfl⟩
  refine ⟨List.mergeSort_perm _ _, List.pairwise_mergeSort ?_ ?_ rows⟩
  · exact fun i j k => sql.name_trans i.name j.name k.name
  · intro i j
    rw [Bool.or_eq_true]
    exact sql.name_total i.name j.name

end

/-! ## A search that the total does not know of -/

/-- Texts in one order, and a search that finds a text in itself only. -/
def exactSql : ListSql where
  backend := .sqlite
  ilike value pattern := pattern = "%" ++ value ++ "%"
  nameLe s t := s ≤ t
  tsMatches _ _ := false
  tsRankGe _ _ _ := true
  tsHeadline vector _ := vector
  like value pattern := value = pattern
  emailLe s t := s ≤ t
  name_total s t := (le_total s t).imp decide_eq_true decide_eq_true
  name_trans _ _ _ h h' := decide_eq_true (le_trans (of_decide_eq_true h) (of_decide_eq_true h'))
  email_total s t := (le_total s t).imp decide_eq_true decide_eq_true
  email_trans _ _ _ h h' := decide_eq_true (le_trans (of_decide_eq_true h) (of_decide_eq_true h'))
  email_unique _ _ h h' := le_antisymm (of_decide_eq_true h) (of_decide_eq_true h')

def memberOf (id : Uuid) (email : String) : User where
  id := id
  email := email
  password_hash := "h"
  display_name := email

def twoMembers : Members where
  users := ⟨[memberOf ⟨1⟩ "ann", memberOf ⟨2⟩ "bob"], by decide, by decide⟩
  user_tenant_roles := [⟨⟨1⟩, ⟨0xa⟩, 4⟩, ⟨⟨2⟩, ⟨0xa⟩, 4⟩]
  unique := by decide

def searchAnn : UserFilter where
  page := 1
  per_page := 25
  page_pos := by decide
  per_page_pos := by decide
  per_page_le := by decide
  is_active := none
  search := some "ann"

/-- One member is found, and two are counted. -/
theorem search_not_counted : ¬ UsersComplete exactSql twoMembers ⟨0xa⟩ searchAnn := by
  intro h
  have htotal : countMembers twoMembers ⟨0xa⟩ none =
      (UserRepository.admitted exactSql ⟨0xa⟩ searchAnn twoMembers).length :=
    total_eq_of_complete (fun _ _ _ => rfl) h
  revert htotal
  decide +kernel

end ScottyCore
