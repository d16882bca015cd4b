import ScottyCore.Sync.Mesh
import ScottyCore.Sync.Version

namespace ScottyCore
open Python MeshSyncEngine Exchange
set_option autoImplicit true

variable {b b' : Backend} {m : Model}

/-! ## One version, payload by payload -/

namespace MeshSyncEngine

variable {eng : MeshSyncEngine b} {inst : Installation b} {v : Row b' m} {l : Row b m}

/-- One row of a payload is let in: the origin filter keeps it and LWW admits it. -/
def RowLetsIn (cid origin loc : String) (row : Dict) (inst : Installation b) (v : Row b' m)
    (l : Row b m) : Prop :=
  keepsRow cid [loc] inst row = true ∧ Admits cid origin loc v l

instance : Decidable (RowLetsIn cid origin loc row inst v l) :=
  inferInstanceAs (Decidable (_ ∧ _))

theorem applyRow_db {c : Contributor b} (eng : MeshSyncEngine b) (peer_id origin : String)
    (hc : Registered c) (ht : m.timestamped = true)
    (hh : Hits c.contributor_id row m v.id) (hrow : Carries row v) (hid : v.id = l.id)
    (hl : inst.db.find m v.id = some l) :
    (eng.applyRow c peer_id origin row inst).2.db =
      if Admits c.contributor_id origin eng.local_node.id v l then mergedDb inst.db v l
      else inst.db := by
  have hv := verdict_hit origin eng.local_node.id ht (hid ▸ hh) hrow (hid ▸ hl)
  rw [applyRow_eq hc, mergedDb_eq hrow hl]
  cases hver : verdict c.contributor_id row origin eng.local_node.id inst.db with
  | error e =>
    rw [if_neg fun h => by have := hv.2 h; rw [hver] at this; cases this]
  | ok wins =>
    cases wins with
    | false =>
      rw [if_neg fun h => by have := hv.2 h; rw [hver] at this; cases this]
      rfl
    | true =>
      rw [if_pos (hv.1 hver)]
      simp only [restoreRow, restore_row hc, hh.1, Except.bind, restoreInto, transaction]
      cases mergeRow m row inst.db with
      | error e => rfl
      | ok db => rfl

theorem applyPayload_db (happs : eng.backup = buildBackupService app_name app_version dir)
    (ht : m.timestamped = true) (hh : Hits cid row m v.id) (hrow : Carries row v)
    (hid : v.id = l.id) (hl : inst.db.find m v.id = some l) :
    (eng.applyPayload peer_id origin (cid, [row]) inst).2.db =
      if RowLetsIn cid origin eng.local_node.id row inst v l then mergedDb inst.db v l
      else inst.db := by
  obtain ⟨c, hfind⟩ := find_of_route b app_name app_version dir hh.1
  have hcid : c.contributor_id = cid := KeyedTable.key_of_find hfind
  have hc : Registered c := registered_of_find hfind
  subst hcid
  simp only [applyPayload, happs, hfind, filterRowsByOrigin, List.filter_cons, List.filter_nil]
  by_cases hk : keepsRow c.contributor_id [eng.local_node.id] inst row = true
  · have hrow' := applyRow_db eng peer_id origin hc ht hh hrow hid hl
    simp only [hk, if_true, applyContributorRows, RowLetsIn, true_and]
    exact hrow'
  · rw [if_neg hk, if_neg fun h => hk h.1]
    rfl

end MeshSyncEngine

/-! ## Both payloads of a version -/

/-- The setting also travels in the secrets payload. -/
def SecretVersion (v : Row b m) : Prop :=
  m = .setting ∧ isSecret (v.get "key") = .ok true

instance (v : Row b m) : Decidable (SecretVersion v) :=
  inferInstanceAs (Decidable (_ ∧ _))

/-- The payload of a model's own contributor, and the tag of its rows there. -/
def ownPayload (m : Model) : String × Option String := (platformPayload m).getD ("", none)

/-- A version as the exporting contributors carry it. -/
def versionPayloads (v : Row b m) : List (String × ContributorExport) :=
  ((ownPayload m).1, { rows := [exportedRow (ownPayload m).2 v] }) ::
    if SecretVersion v then [("secrets", { rows := [rowToDict v] })] else []

def Exchanged (m : Model) : Prop := m = .user ∨ m = .tenant ∨ m = .setting

theorem Exchanged.timestamped (h : Exchanged m) : m.timestamped = true := by
  rcases h with rfl | rfl | rfl <;> rfl

theorem Exchanged.ownPayload_ne (h : Exchanged m) : (ownPayload m).1 ≠ "secrets" := by
  rcases h with rfl | rfl | rfl <;> decide

theorem Exchanged.readModel (h : Exchanged m) : readModel (ownPayload m).1 = some m := by
  rcases h with rfl | rfl | rfl <;> rfl

theorem Exchanged.hits (h : Exchanged m) (v : Row b m) :
    Hits (ownPayload m).1 (exportedRow (ownPayload m).2 v) m v.id := by
  refine ⟨?_, (carries_exportedRow _ v).id⟩
  rcases h with rfl | rfl | rfl <;> rfl

theorem SecretVersion.hits {v : Row b m} (h : SecretVersion v) :
    Hits "secrets" (rowToDict v) m v.id := by
  obtain ⟨rfl, hkey⟩ := h
  refine ⟨?_, (carries_rowToDict v).id⟩
  obtain ⟨k, hk⟩ := setting_key v
  have hget : (rowToDict v).lookup "key" = some (serialise (v.get "key")) :=
    (carries_rowToDict v).get (c := .required "key" .string) (by decide)
  have hgetD : (rowToDict v).getD "key" (.str "") = v.get "key" := by
    rw [Dict.getD, hget, hk]
    rfl
  change (isSecret ((rowToDict v).getD "key" (.str ""))).map _ = _
  rw [hgetD, hkey]
  rfl

namespace MeshSyncEngine

variable {eng : MeshSyncEngine b} {inst : Installation b} {v : Row b' m} {l : Row b m}

theorem admits_secrets : Admits "secrets" origin loc v l := by
  rw [Admits, seenStamp, if_neg fun h => by cases h.1]
  cases v.updatedAt <;> rfl

/-- The version is let in from the payload of its model's own contributor. -/
def OwnLetsIn (eng : MeshSyncEngine b) (origin : Option String) (inst : Installation b)
    (v : Row b' m) (l : Row b m) : Prop :=
  RowLetsIn (ownPayload m).1 (originOf origin) eng.local_node.id
    (exportedRow (ownPayload m).2 v) inst v l

/-- The version is let in from the secrets payload, where LWW has no row to compare with. -/
def SecretLetsIn (eng : MeshSyncEngine b) (inst : Installation b) (v : Row b' m) : Prop :=
  SecretVersion v ∧ keepsRow "secrets" [eng.local_node.id] inst (rowToDict v) = true

instance : Decidable (OwnLetsIn eng origin inst v l) :=
  inferInstanceAs (Decidable (RowLetsIn ..))

instance : Decidable (SecretLetsIn eng inst v) :=
  inferInstanceAs (Decidable (_ ∧ _))

theorem versionPayloads_nodup (hm : Exchanged m) (v : Row b m) :
    ((versionPayloads v).map Prod.fst).Nodup := by
  unfold versionPayloads
  split
  · simpa using hm.ownPayload_ne
  · simp

/-- The row that a node holds after the payloads of a version, one after the other. -/
def heldAfter (eng : MeshSyncEngine b) (origin : Option String) (inst : Installation b)
    (v : Row b' m) (l : Row b m) : Row b m :=
  if Clashes inst.db v then l
  else if OwnLetsIn eng origin inst v l ∧ SecretLetsIn eng inst v then v.on b
  else if OwnLetsIn eng origin inst v l ∨ SecretLetsIn eng inst v then v.over inst.db.now l
  else l

theorem applyOwnPayload_db (eng : MeshSyncEngine b) (peer_id : String) (origin : Option String)
    (happs : eng.backup = buildBackupService app_name app_version dir)
    (hm : Exchanged m) (hid : v.id = l.id) (hl : inst.db.find m v.id = some l) :
    (eng.applyPayload peer_id (originOf origin)
      ((ownPayload m).1, [exportedRow (ownPayload m).2 v]) inst).2.db =
        if OwnLetsIn eng origin inst v l then mergedDb inst.db v l else inst.db :=
  applyPayload_db happs hm.timestamped (hm.hits v) (carries_exportedRow _ v) hid hl

/-- The secrets payload finds the origins as they were before the own payload. -/
theorem applySecrets_db (happs : eng.backup = buildBackupService app_name app_version dir)
    (hm : Exchanged m) (hs : SecretVersion v) (hid : v.id = l.id)
    (horigin : ∀ row, keepsRow "secrets" [eng.local_node.id] inst' row =
      keepsRow "secrets" [eng.local_node.id] inst row)
    (hl : inst'.db.find m v.id = some l) :
    (eng.applyPayload peer_id origin ("secrets", [rowToDict v]) inst').2.db =
      if SecretLetsIn eng inst v then mergedDb inst'.db v l else inst'.db := by
  rw [applyPayload_db happs hm.timestamped hs.hits (carries_rowToDict v) hid hl]
  refine if_congr ?_ rfl rfl
  rw [RowLetsIn, horigin]
  exact ⟨fun h => ⟨hs, h.1⟩, fun h => ⟨h.2, admits_secrets⟩⟩

theorem find_applyVersion (happs : eng.backup = buildBackupService app_name app_version dir)
    (hm : Exchanged m) (hid : v.id = l.id) (hl : inst.db.find m v.id = some l)
    (manifest : BackupManifest) :
    (eng.applyBundle (buildTarball manifest (versionPayloads v)) peer_id origin inst).2.db.find m
      v.id = some (heldAfter eng origin inst v l) := by
  have hown := applyOwnPayload_db eng peer_id origin happs hm hid hl
  rw [applyBundle_eq, payloadsOf_buildTarball _ (versionPayloads_nodup hm v)]
  by_cases hs : SecretVersion v
  · have hkeep := keepsRow_congr [eng.local_node.id] fun rid =>
      getRowOrigin_applyPayload peer_id (originOf origin) rid inst
        ((ownPayload m).1, [exportedRow (ownPayload m).2 v]) happs (Ne.symm hm.ownPayload_ne)
    simp only [versionPayloads, if_pos hs, List.map_cons, List.map_nil, applyPayloads]
    by_cases ho : OwnLetsIn eng origin inst v l
    · rw [if_pos ho] at hown
      have hstored := find_mergedDb hl
      rw [← hown] at hstored
      have hid' : v.id = (if Clashes inst.db v then l else v.over inst.db.now l).id := by
        split
        · exact hid
        · exact (id_over v l).symm
      rw [applySecrets_db happs hm hs hid' (congrFun hkeep) hstored, hown]
      rw [hown] at hstored
      by_cases hsec : SecretLetsIn eng inst v
      · rw [if_pos hsec, find_mergedDb hstored, now_mergedDb, heldAfter,
          if_pos (And.intro ho hsec)]
        by_cases hc : Clashes inst.db v
        · rw [if_pos (clashes_mergedDb.2 hc), if_pos hc, if_pos hc]
        · rw [if_neg fun h => hc (clashes_mergedDb.1 h), if_neg hc, if_neg hc,
            Row.over_over hm.timestamped]
      · rw [if_neg hsec, hstored, heldAfter, if_neg fun h : _ ∧ _ => hsec h.2, if_pos (Or.inl ho)]
    · rw [if_neg ho] at hown
      have hstored := hl
      rw [← hown] at hstored
      rw [applySecrets_db happs hm hs hid (congrFun hkeep) hstored, hown]
      by_cases hsec : SecretLetsIn eng inst v
      · rw [if_pos hsec, find_mergedDb hl, heldAfter, if_neg fun h : _ ∧ _ => ho h.1,
          if_pos (Or.inr hsec)]
      · rw [if_neg hsec, hl, heldAfter, if_neg fun h : _ ∧ _ => ho h.1,
          if_neg (not_or.2 ⟨ho, hsec⟩), ite_self]
  · have hsecret : ¬ SecretLetsIn eng inst v := fun h => hs h.1
    simp only [versionPayloads, if_neg hs, List.map_cons, List.map_nil, applyPayloads, heldAfter,
      hsecret, and_false, or_false, if_false]
    rw [hown]
    by_cases ho : OwnLetsIn eng origin inst v l
    · rw [if_pos ho, if_pos ho, find_mergedDb hl]
    · rw [if_neg ho, if_neg ho, hl, ite_self]

end MeshSyncEngine

/-! ## The exchange -/

/-- How a version reaches a node. -/
inductive Channel where
  | pull | push

/-- A pull passes no origin, a push the sender's node id. -/
def Channel.origin (node_id : String) : Channel → Option String
  | pull => none
  | push => some node_id

/-- Each node's version of a row, and how each node gets the other's. -/
structure VersionExchange (β : Side → Backend) (m : Model) where
  eng : MeshEngines β
  before : MeshState β
  held : (s : Side) → Row (β s) m
  via : Side → Channel
  peer_id : Side → String
  manifest : Side → BackupManifest

namespace VersionExchange

variable {β : Side → Backend} (ex : VersionExchange β m) (s : Side)

/-- The origin that a node calls `_apply_bundle` with. -/
def origin : Option String := (ex.via s).origin (ex.eng s.other).local_node.id

/-- The node after it has applied the version that the other one held. -/
def after : Installation (β s) :=
  ((ex.eng s).applyBundle (buildTarball (ex.manifest s) (versionPayloads (ex.held s.other)))
    (ex.peer_id s) (ex.origin s) (ex.before s)).2

/-- Both nodes run the registered contributors and store a version of one row. -/
structure WellFormed : Prop where
  model : Exchanged m
  engines : ∀ s, ∃ node app_name app_version dir decrypt,
    ex.eng s = MeshSyncEngine.standard node app_name app_version dir decrypt
  id : ∀ s, (ex.held s.other).id = (ex.held s).id
  stored : ∀ s, (ex.before s).db.find m (ex.held s).id = some (ex.held s)

def Converged : Prop :=
  ∃ x y, (ex.after .left).db.find m (ex.held .left).id = some x ∧
    (ex.after .right).db.find m (ex.held .right).id = some y ∧ SameVersion x y

/-- A node lets the other's version in from the payload of its own contributor: it recorded no
origin of its own for the row, the timestamps compare, and the version is newer, or as old with
an origin that is not below the node's id. -/
def OwnAccepts : Prop :=
  keepsRow (ownPayload m).1 [(ex.eng s).local_node.id] (ex.before s)
      (exportedRow (ownPayload m).2 (ex.held s.other)) = true ∧
    ((ex.held s).id = .str "" ∨ β s = β s.other ∧
      ((ex.held s.other).newerThan (ex.held s) ∨
        ((ex.held s.other).stamp = (ex.held s).stamp ∧
          (ex.eng s).local_node.id ≤ originOf (ex.origin s))))

/-- A node takes the other's version: a payload lets it in, and no unique value clashes. -/
def Takes : Prop :=
  (ex.OwnAccepts s ∨ SecretLetsIn (ex.eng s) (ex.before s) (ex.held s.other)) ∧
    ¬ Clashes (ex.before s).db (ex.held s.other)

/-- A node takes the other's version with its timestamp. Of an equal timestamp only the other
columns are written, and `onupdate` sets it to the time of the write. -/
def Adopts : Prop :=
  ex.Takes s ∧ ((ex.held s.other).otherStamp (ex.held s) ∨
    (ex.OwnAccepts s ∧ SecretLetsIn (ex.eng s) (ex.before s) (ex.held s.other)) ∨
    restampCell .sqlite (.datetime (ex.before s).db.now) = (version (ex.held s.other)).stamp)

variable {ex} {s}

theorem ownAccepts_iff (h : ex.WellFormed) :
    ex.OwnAccepts s ↔
      OwnLetsIn (ex.eng s) (ex.origin s) (ex.before s) (ex.held s.other) (ex.held s) := by
  have hread := h.model.readModel
  rw [OwnAccepts, OwnLetsIn, RowLetsIn, admits_iff h.model.timestamped]
  apply and_congr_right
  intro _
  exact ⟨fun h => .inr h, fun h => h.resolve_left (not_not_intro hread)⟩

theorem find_after (h : ex.WellFormed) (s : Side) :
    (ex.after s).db.find m (ex.held s).id = some
      (heldAfter (ex.eng s) (ex.origin s) (ex.before s) (ex.held s.other) (ex.held s)) := by
  obtain ⟨node, app_name, app_version, dir, decrypt, heng⟩ := h.engines s
  have happs : (ex.eng s).backup = buildBackupService app_name app_version dir := by
    rw [heng]
    rfl
  have hstored : (ex.before s).db.find m (ex.held s.other).id = some (ex.held s) := by
    rw [h.id s]
    exact h.stored s
  rw [← h.id s]
  exact find_applyVersion happs h.model (h.id s) hstored (ex.manifest s)

theorem converged_iff (h : ex.WellFormed) :
    ex.Converged ↔ SameVersion
      (heldAfter (ex.eng .left) (ex.origin .left) (ex.before .left) (ex.held .right)
        (ex.held .left))
      (heldAfter (ex.eng .right) (ex.origin .right) (ex.before .right) (ex.held .left)
        (ex.held .right)) := by
  constructor
  · rintro ⟨x, y, hx, hy, hxy⟩
    rw [find_after h] at hx hy
    cases hx
    cases hy
    exact hxy
  · intro hxy
    exact ⟨_, _, find_after h .left, find_after h .right, hxy⟩

open Classical in
/-- What a node does with the other's version. -/
noncomputable def answer (ex : VersionExchange β m) (s : Side) : Answer Val :=
  if ex.Takes s then
    if (ex.held s.other).otherStamp (ex.held s) ∨ (ex.held s.other).agrees (ex.held s) = true ∨
        (ex.OwnAccepts s ∧ SecretLetsIn (ex.eng s) (ex.before s) (ex.held s.other)) then .take
    else .retouch (restampCell .sqlite (.datetime (ex.before s).db.now))
  else .refuse

theorem version_after (h : ex.WellFormed) (s : Side) :
    version (heldAfter (ex.eng s) (ex.origin s) (ex.before s) (ex.held s.other) (ex.held s)) =
      (ex.answer s).result (version (ex.held s)) (version (ex.held s.other)) := by
  have ht := h.model.timestamped
  have hown := ownAccepts_iff (s := s) h
  let own := OwnLetsIn (ex.eng s) (ex.origin s) (ex.before s) (ex.held s.other) (ex.held s)
  let secret := SecretLetsIn (ex.eng s) (ex.before s) (ex.held s.other)
  rw [heldAfter, answer]
  by_cases hc : Clashes (ex.before s).db (ex.held s.other)
  · rw [if_pos hc, if_neg fun h' : ex.Takes s => h'.2 hc]
    rfl
  rw [if_neg hc]
  by_cases hin : own ∨ secret
  · have htakes : ex.Takes s := ⟨hin.imp_left hown.2, hc⟩
    rw [if_pos htakes]
    by_cases hboth : own ∧ secret
    · rw [if_pos hboth, if_pos (.inr (.inr ⟨hown.2 hboth.1, hboth.2⟩))]
      exact version_on ht _ _
    · rw [if_neg hboth, if_pos hin]
      by_cases ho : (ex.held s.other).otherStamp (ex.held s)
      · rw [if_pos (.inl ho), Row.over_of_ne ho]
        exact version_on ht _ _
      · by_cases ha : (ex.held s.other).agrees (ex.held s) = true
        · rw [if_pos (.inr (.inl ha)), Row.over_of_agrees ha]
          exact version_on ht _ _
        · rw [if_neg (not_or.2 ⟨ho, not_or.2 ⟨ha, fun h' => hboth ⟨hown.1 h'.1, h'.2⟩⟩⟩),
            Row.over_of_tie ho ha, version_touch ht, version_on ht]
          rfl
  · have htakes : ¬ ex.Takes s := fun h' => hin (h'.1.imp_left hown.1)
    rw [if_neg htakes, if_neg fun h' : own ∧ secret => hin (.inl h'.1), if_neg hin]
    rfl

theorem answer_sound (h : ex.WellFormed) (s : Side) :
    (ex.answer s).Sound (version (ex.held s)) (version (ex.held s.other)) := by
  have ht := h.model.timestamped
  intro now hnow
  unfold answer at hnow
  split at hnow
  · split at hnow
    · cases hnow
    · rename_i hkeep
      obtain ⟨ho, hkeep⟩ := not_or.1 hkeep
      have hstamp := stamp_eq_of_tie ht ho
      refine ⟨hstamp.symm, fun hcontent => (not_or.1 hkeep).1 ?_⟩
      apply agrees_of_tie ht ho
      apply (version_eq_iff ht _ _).1
      calc version (ex.held s.other)
          = ⟨(version (ex.held s.other)).content, (version (ex.held s.other)).stamp⟩ := rfl
        _ = version (ex.held s) := by rw [← hcontent, hstamp]
  · cases hnow

theorem answer_refuse_iff : ex.answer s = .refuse ↔ ¬ ex.Takes s := by
  unfold answer
  constructor
  · intro h ht
    rw [if_pos ht] at h
    split at h
    · cases h
    · cases h
  · intro h
    exact if_neg h

theorem answer_adopts_iff :
    (ex.answer s).Adopts (version (ex.held s.other)) ↔
      ex.Adopts s ∨ (ex.Takes s ∧ (ex.held s.other).agrees (ex.held s) = true) := by
  unfold answer Adopts Answer.Adopts
  by_cases ht : ex.Takes s
  · rw [if_pos ht]
    split
    · rename_i hkeep
      refine ⟨fun _ => ?_, fun _ => .inl rfl⟩
      rcases hkeep with ho | ha | hboth
      · exact .inl ⟨ht, .inl ho⟩
      · exact .inr ⟨ht, ha⟩
      · exact .inl ⟨ht, .inr (.inl hboth)⟩
    · rename_i hkeep
      obtain ⟨ho, hkeep⟩ := not_or.1 hkeep
      obtain ⟨ha, hboth⟩ := not_or.1 hkeep
      simp [ht, ho, ha, hboth]
  · rw [if_neg ht]
    simp [ht]

theorem sameVersion_of_agrees (h : (ex.held s.other).agrees (ex.held s) = true) :
    SameVersion (ex.held s) (ex.held s.other) := by
  rw [← Row.on_of_agrees h]
  exact sameVersion_on _ _

end VersionExchange

/-- After the exchange both nodes hold one version of the row exactly when they did before, or
when one of them adopts the other's version and the other one refuses. -/
theorem exchange_converges_iff {β : Side → Backend} (ex : VersionExchange β m)
    (h : ex.WellFormed) :
    ex.Converged ↔ SameVersion (ex.held .left) (ex.held .right) ∨
      ∃ s, ex.Adopts s ∧ ¬ ex.Takes s.other := by
  have ht := h.model.timestamped
  let l := ex.answer .left
  let r := ex.answer .right
  have hl : version (heldAfter (ex.eng .left) (ex.origin .left) (ex.before .left)
      (ex.held .right) (ex.held .left)) = l.result (version (ex.held .left))
        (version (ex.held .right)) := VersionExchange.version_after h .left
  have hr : version (heldAfter (ex.eng .right) (ex.origin .right) (ex.before .right)
      (ex.held .left) (ex.held .right)) = r.result (version (ex.held .right))
        (version (ex.held .left)) := VersionExchange.version_after h .right
  have hsl : l.Sound (version (ex.held .left)) (version (ex.held .right)) :=
    VersionExchange.answer_sound h .left
  have hsr : r.Sound (version (ex.held .right)) (version (ex.held .left)) :=
    VersionExchange.answer_sound h .right
  have hal : l.Adopts (version (ex.held .right)) ↔ ex.Adopts .left ∨
      (ex.Takes .left ∧ (ex.held .right).agrees (ex.held .left) = true) :=
    VersionExchange.answer_adopts_iff (s := .left)
  have har : r.Adopts (version (ex.held .left)) ↔ ex.Adopts .right ∨
      (ex.Takes .right ∧ (ex.held .left).agrees (ex.held .right) = true) :=
    VersionExchange.answer_adopts_iff (s := .right)
  calc ex.Converged
    ↔ SameVersion _ _ := VersionExchange.converged_iff h
    _ ↔ l.result (version (ex.held .left)) (version (ex.held .right)) =
          r.result (version (ex.held .right)) (version (ex.held .left)) := by
        rw [← hl, ← hr]
        exact (version_eq_iff ht _ _).symm
    _ ↔ SameVersion (ex.held .left) (ex.held .right) ∨
          (l.Adopts (version (ex.held .right)) ∧ r = .refuse) ∨
            (l = .refuse ∧ r.Adopts (version (ex.held .left))) := by
        rw [Answer.result_eq_iff hsl hsr, version_eq_iff ht]
    _ ↔ SameVersion (ex.held .left) (ex.held .right) ∨
          (ex.Adopts .left ∧ ¬ ex.Takes .right) ∨ (¬ ex.Takes .left ∧ ex.Adopts .right) := by
        rw [hal, har, VersionExchange.answer_refuse_iff, VersionExchange.answer_refuse_iff]
        constructor
        · rintro (hsame | ⟨hadopt | ⟨_, ha⟩, hn⟩ | ⟨hn, hadopt | ⟨_, ha⟩⟩)
          · exact .inl hsame
          · exact .inr (.inl ⟨hadopt, hn⟩)
          · exact .inl (VersionExchange.sameVersion_of_agrees (s := .left) ha)
          · exact .inr (.inr ⟨hn, hadopt⟩)
          · exact .inl (VersionExchange.sameVersion_of_agrees (s := .right) ha).symm
        · rintro (hsame | ⟨hadopt, hn⟩ | ⟨hn, hadopt⟩)
          · exact .inl hsame
          · exact .inr (.inl ⟨.inl hadopt, hn⟩)
          · exact .inr (.inr ⟨hn, .inl hadopt⟩)
    _ ↔ _ := by
        refine or_congr_right ⟨?_, ?_⟩
        · rintro (⟨hadopt, hn⟩ | ⟨hn, hadopt⟩)
          · exact ⟨.left, hadopt, hn⟩
          · exact ⟨.right, hadopt, hn⟩
        · rintro ⟨s, hadopt, hn⟩
          cases s with
          | left => exact .inl ⟨hadopt, hn⟩
          | right => exact .inr ⟨hn, hadopt⟩

/-! ## Two versions of one user -/

/-- Two booted nodes; the left one pulls, and pushes to the right one. -/
def aliceExchange (held : Side → Row .sqlite .user) : VersionExchange sqlitePair .user where
  eng := pairEngines
  before s := createPlatformNodeIdempotent "node" (installationOf (held s))
  held := held
  via s := match s with
    | .left => .pull
    | .right => .push
  peer_id _ := "peer"
  manifest _ := (buildBackupService (b := .sqlite) "app" "1.0" none).manifest .platform none noon []

theorem aliceExchange_wellFormed {held : Side → Row .sqlite .user}
    (h : ∀ s, (held s).id = .str "alice") : (aliceExchange held).WellFormed where
  model := .inl rfl
  engines _ := ⟨_, _, _, _, _, rfl⟩
  id s := (h s.other).trans (h s).symm
  stored s := Database.find_put_self _ (held s)

def noonAndMorning : Side → Row .sqlite .user
  | .left => alice "Left" noon
  | .right => alice "Right" morning

theorem noonAndMorning_id (s : Side) : (noonAndMorning s).id = .str "alice" := by
  cases s <;> rfl

theorem exchange_converges_newer :
    (aliceExchange noonAndMorning).Converged ↔
      SameVersion (alice "Left" noon) (alice "Right" morning) ∨
        ∃ s, (aliceExchange noonAndMorning).Adopts s ∧
          ¬ (aliceExchange noonAndMorning).Takes s.other :=
  exchange_converges_iff (aliceExchange noonAndMorning) (aliceExchange_wellFormed noonAndMorning_id)

def bothNoon : Side → Row .sqlite .user
  | .left => alice "Left" noon
  | .right => alice "Right" noon

theorem bothNoon_id (s : Side) : (bothNoon s).id = .str "alice" := by
  cases s <;> rfl

/-- Of two versions of one timestamp each node takes the other's, on the pull and on the push. -/
theorem exchange_swaps_tie :
    (aliceExchange bothNoon).WellFormed ∧ ¬ (aliceExchange bothNoon).Converged := by
  refine ⟨aliceExchange_wellFormed bothNoon_id, ?_⟩
  rw [VersionExchange.converged_iff (aliceExchange_wellFormed bothNoon_id)]
  decide +kernel

end ScottyCore
