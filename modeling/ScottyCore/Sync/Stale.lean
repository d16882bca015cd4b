import ScottyCore.Sync.PushDelta
import ScottyCore.Sync.Slot

namespace ScottyCore
open Python MeshSyncEngine
set_option autoImplicit true

variable {b b' : Backend} {m : Model}

theorem lww_of_older {r l : DateTime} (h : r.instant < l.instant) :
    lwwRemoteWins (some r) (some l) origin loc ≠ .ok true := by
  intro hwins
  rcases (lwwRemoteWins_iff.1 hwins).2 with hlt | ⟨he, _⟩
  · omega
  · omega

/-- Every version of a stored row in a bundle is older than the stored one, and comes in a
payload whose contributor can read the stored row. -/
def StaleFor (bundle : Bytes) (l : Row b m) : Prop :=
  ∀ payload ∈ payloadsOf bundle, ∀ row ∈ payload.2, Hits payload.1 row m l.id →
    readModel payload.1 = some m ∧ ∃ r t, parseTs (row.get "updated_at") = some r ∧
      l.updatedAt = some t ∧ r.instant < t.instant

/-- A row without a timestamp is never refused. -/
theorem applyRow_unstamped {eng : MeshSyncEngine b} {c : Contributor b} {inst : Installation b}
    (hc : Registered c) (h : parseTs (row.get "updated_at") = none) :
    eng.applyRow c peer_id origin row inst = restoreRow c origin row inst := by
  rw [applyRow_eq hc, verdict, h]
  rfl

/-- A stale version of a stored row never overwrites it, whichever payloads carry it and in
whatever order the rows come. -/
theorem applyBundle_keeps_newer (node : PlatformNode) (app_name app_version : String)
    (dir : Option String) (decrypt : String → Option String) (bundle : Bytes) (peer_id : String)
    (origin : Option String) (inst : Installation b) (l : Row b m)
    (ht : m.timestamped = true) (hid : l.id ≠ .str "") (hl : inst.db.find m l.id = some l)
    (hstale : StaleFor bundle l) :
    ((MeshSyncEngine.standard node app_name app_version dir decrypt).applyBundle bundle peer_id
      origin inst).2.db.find m l.id = some l := by
  rw [applyBundle_eq]
  refine applyPayloads_invariant (P := fun inst => inst.db.find m l.id = some l) hl ?_
  intro payload hp c hf row hr inst' hl'
  have hc : Registered c := registered_of_find hf
  have hcid : c.contributor_id = payload.1 := KeyedTable.key_of_find hf
  by_cases hh : Hits c.contributor_id row m l.id
  · obtain ⟨hread, r, t, hrow, hupd, hlt⟩ := hstale payload hp row hr (hcid ▸ hh)
    have hverdict : verdict c.contributor_id row (originOf origin) node.id inst'.db ≠
        .ok true := by
      rw [verdict, hrow, localStamp_hit ht hh hl', seenStamp, if_pos ⟨hcid ▸ hread, hid⟩, hupd]
      exact lww_of_older hlt
    rcases applyRow_cases (.standard node app_name app_version dir decrypt) hc peer_id
      (originOf origin) row inst' with ⟨_, _, h⟩ | ⟨_, h⟩ | ⟨hv, _⟩
    · rw [h]; exact hl'
    · rw [h]; exact hl'
    · exact (hverdict hv).elim
  · exact find_applyRow_of_not_hits hc hh hl'

/-! ## A stale user, a stale membership -/

def platformBundle (payloads : List (String × ContributorExport)) : Bytes :=
  buildTarball ((buildBackupService (b := .sqlite) "app" "1.0" none).manifest .platform none noon
    payloads) payloads

def aliceBundle (v : Row .sqlite .user) : Bytes :=
  platformBundle [("users", { rows := [withTag "users" (rowToDict v)] })]

theorem payloadsOf_aliceBundle (v : Row .sqlite .user) :
    payloadsOf (aliceBundle v) = [("users", [withTag "users" (rowToDict v)])] :=
  payloadsOf_buildTarball _ (List.nodup_singleton _)

theorem applyBundle_keeps_alice :
    ((MeshSyncEngine.standard ⟨singletonId, "node"⟩ "app" "1.0" none some).applyBundle
      (aliceBundle (alice "Old" morning)) "peer" none (installationOf (alice "New" noon))).2.db.find
        .user (.str "alice") = some (alice "New" noon) := by
  refine applyBundle_keeps_newer ⟨singletonId, "node"⟩ "app" "1.0" none some _ "peer" none
    (installationOf (alice "New" noon)) (alice "New" noon) rfl (by decide)
    (Database.find_put_self _ _) ?_
  intro payload hp row hr _
  rw [payloadsOf_aliceBundle, List.mem_singleton] at hp
  subst hp
  rw [List.mem_singleton] at hr
  subst hr
  exact ⟨rfl, morning, noon, by decide +kernel, by decide, by decide⟩

def membership (role_id : Int) (assigned_at : { d : DateTime // Backend.sqlite.native d = true }) :
    Row .sqlite .userTenantRole :=
  ⟨[("id", .str "utr"), ("user_id", .str "alice"), ("tenant_id", .str "acme"),
    ("role_id", .int role_id), ("assigned_at", .datetime assigned_at), ("assigned_by", .none)],
    by simp [fits, Model.columns, Column.holds, Column.uuid, Column.required, Column.optional,
        Column.serverNow, assigned_at.property]⟩

def membershipBundle (v : Row .sqlite .userTenantRole) : Bytes :=
  platformBundle [("users", { rows := [withTag "user_tenant_roles" (rowToDict v)] })]

/-- A membership has no `updated_at`: the role of the morning replaces the one of noon. -/
theorem applyBundle_overwrites_membership :
    morning.val.instant < noon.val.instant ∧
      ((MeshSyncEngine.standard ⟨singletonId, "node"⟩ "app" "1.0" none some).applyBundle
        (membershipBundle (membership 1 morning)) "peer" none
        (installationOf (membership 2 noon))).2.db.find .userTenantRole (.str "utr") ≠
          some (membership 2 noon) := by
  decide +kernel

end ScottyCore
