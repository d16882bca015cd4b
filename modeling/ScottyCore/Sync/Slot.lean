import ScottyCore.Sync.Apply

namespace ScottyCore
open Python
set_option autoImplicit true

variable {b b' : Backend} {m : Model}

/-! ## The rows of a bundle that meet one stored row -/

/-- Restoring a row of a payload writes the row of a model under a key. -/
def Hits (cid : String) (row : Dict) (m : Model) (key : Val) : Prop :=
  route cid row = .ok (some m) ∧ row.get "id" = key

instance : Decidable (Hits cid row m key) :=
  inferInstanceAs (Decidable (_ ∧ _))

/-- The stamp of the stored row that LWW compares with, when a payload hits it. -/
def seenStamp (cid : String) (l : Row b m) : Option DateTime :=
  if readModel cid = some m ∧ l.id ≠ .str "" then l.updatedAt else none

theorem readModel_of_route (h : route cid row = .ok (some m)) (ht : m.timestamped = true) :
    readModel cid = some m ∨ readModel cid = none := by
  unfold route at h
  split at h
  · rename_i hcid
    subst hcid
    split at h
    · cases h; cases ht
    · split at h
      · cases h; exact .inl rfl
      · cases h
  · split at h
    · rename_i hcid
      subst hcid
      split at h
      · cases h; exact .inl rfl
      · split at h
        · cases h; cases ht
        · cases h
    · split at h
      · rename_i hcid
        subst hcid
        cases h; exact .inl rfl
      · split at h
        · rename_i hcid
          subst hcid
          exact .inr rfl
        · split at h
          · rename_i hcid
            subst hcid
            cases h; exact .inl rfl
          · split at h
            · cases h; cases ht
            · cases h

theorem Model.id_text (h : Model.timestamped m = true) :
    ∃ c ∈ m.columns, c.name = "id" ∧ c.type = .string ∧ c.nullable = false := by
  cases m <;> first | exact ⟨_, List.mem_cons_self, by decide⟩ | cases h

theorem Row.id_text (r : Row b m) (h : m.timestamped = true) : ∃ s, r.id = .str s := by
  obtain ⟨c, hc, hid, htype, hnull⟩ := Model.id_text h
  obtain ⟨_, hh⟩ := r.lookup hc
  rw [hid] at hh
  change c.holds b r.id = true at hh
  cases hv : r.id with
  | str s => exact ⟨s, rfl⟩
  | _ =>
    rw [hv] at hh
    simp only [Column.holds, htype, hnull, reduceCtorEq, decide_false, Bool.false_and,
      Bool.false_eq_true] at hh

theorem rowId_of_get (h : row.get "id" = .str s) : rowId row = s := by
  rw [Dict.get] at h
  rw [rowId, Dict.getD]
  cases hl : List.lookup "id" row with
  | none => rw [hl] at h; cases h
  | some v =>
    rw [hl, Option.getD_some] at h
    subst h
    rfl

theorem localStamp_hit {db : Database b} {l : Row b m} (ht : m.timestamped = true)
    (hh : Hits cid row m l.id) (hl : db.find m l.id = some l) :
    localStamp cid row db = seenStamp cid l := by
  obtain ⟨s, hs⟩ := l.id_text ht
  have hid : rowId row = s := rowId_of_get (hh.2.trans hs)
  rw [localStamp, seenStamp]
  rcases readModel_of_route hh.1 ht with hr | hr
  · simp only [hr, true_and, hid, hs, ne_eq, Val.str.injEq]
    by_cases he : s = ""
    · rw [if_pos he, if_neg (not_not_intro he)]
    · rw [if_neg he, if_pos he, ← hs, hl]
      rfl
  · simp only [hr, reduceCtorEq, false_and, if_false]

/-- LWW lets a payload's version of a row in over the stored one. -/
def Admits (cid origin loc : String) (v : Row b' m) (l : Row b m) : Prop :=
  lwwRemoteWins v.updatedAt (seenStamp cid l) origin loc = .ok true

instance (v : Row b' m) (l : Row b m) : Decidable (Admits cid origin loc v l) :=
  inferInstanceAs (Decidable (_ = _))

theorem verdict_hit {db : Database b} {v : Row b' m} {l : Row b m} (origin loc : String)
    (ht : m.timestamped = true)
    (hh : Hits cid row m l.id) (hrow : Carries row v) (hl : db.find m l.id = some l) :
    verdict cid row origin loc db = .ok true ↔ Admits cid origin loc v l := by
  rw [verdict, parseTs_carried hrow ht, localStamp_hit ht hh hl, Admits]

/-! ## One row -/

namespace MeshSyncEngine

variable {eng : MeshSyncEngine b} {c : Contributor b} {inst : Installation b}

theorem find_applyRow_of_not_hits (hc : Registered c)
    (hn : ¬ Hits c.contributor_id row m key) (hl : inst.db.find m key = some l) :
    (eng.applyRow c peer_id origin row inst).2.db.find m key = some l := by
  rcases applyRow_cases eng hc peer_id origin row inst with
    ⟨e, _, h⟩ | ⟨_, h⟩ | ⟨_, ⟨e, h⟩ | ⟨_, h⟩ | ⟨m', db, hroute, hmerge, h⟩⟩
  · rw [h]; exact hl
  · rw [h]; exact hl
  · rw [h]; exact hl
  · rw [h]; exact hl
  · rw [h]
    have hne : m ≠ m' ∨ key ≠ row.get "id" := by
      by_contra hboth
      rw [not_or, not_not, not_not] at hboth
      exact hn ⟨hboth.1 ▸ hroute, hboth.2.symm⟩
    exact find_mergeRow_of_ne hmerge hne hl

theorem find_applyRow_of_hits {v : Row b' m} (peer_id origin : String) (hc : Registered c)
    (hh : Hits c.contributor_id row m v.id) (hrow : Carries row v)
    (hl : inst.db.find m v.id = some l) :
    let r := eng.applyRow c peer_id origin row inst
    (r.1 = .applied ∧ r.2.db.find m v.id = some (v.over inst.db.now l)) ∨
      (r.1 ≠ .applied ∧ r.2.db = inst.db) := by
  rcases applyRow_cases eng hc peer_id origin row inst with
    ⟨e, _, h⟩ | ⟨_, h⟩ | ⟨_, ⟨e, h⟩ | ⟨hroute, _⟩ | ⟨m', db, hroute, hmerge, h⟩⟩
  · rw [h]; exact .inr ⟨by simp, rfl⟩
  · rw [h]; exact .inr ⟨by simp, rfl⟩
  · rw [h]; exact .inr ⟨by simp, rfl⟩
  · rw [hh.1] at hroute; cases hroute
  · rw [hh.1] at hroute
    cases hroute
    rw [h]
    exact .inl ⟨rfl, find_mergeRow_carried hrow hl hmerge⟩

theorem applied_iff_verdict (hc : Registered c)
    (hf : (eng.applyRow c peer_id origin row inst).1.isRestoreFailed = false) :
    (eng.applyRow c peer_id origin row inst).1 = .applied ↔
      verdict c.contributor_id row origin eng.local_node.id inst.db = .ok true := by
  rcases applyRow_cases eng hc peer_id origin row inst with
    ⟨e, hv, h⟩ | ⟨hv, h⟩ | ⟨hv, ⟨e, h⟩ | ⟨_, h⟩ | ⟨_, _, _, _, h⟩⟩
  · rw [h, hv]; simp
  · rw [h, hv]; simp
  · rw [h] at hf; cases hf
  · rw [h, hv]; simp
  · rw [h, hv]; simp

theorem getRowOrigin_applyRow (hc : Registered c)
    (hne : (cid, rid) ≠ (c.contributor_id, rowId row)) :
    getRowOrigin cid rid (eng.applyRow c peer_id origin row inst).2 =
      getRowOrigin cid rid inst := by
  have hrecord : ∀ inst' : Installation b, getRowOrigin cid rid
      (recordRowOrigin c.contributor_id (rowId row) origin inst') = getRowOrigin cid rid inst' :=
    fun inst' => KeyedTable.find_upsert_of_ne _ hne
  rcases applyRow_cases eng hc peer_id origin row inst with
    ⟨e, _, h⟩ | ⟨_, h⟩ | ⟨_, ⟨e, h⟩ | ⟨_, h⟩ | ⟨_, _, _, _, h⟩⟩
  · rw [h]
  · rw [h]; rfl
  · rw [h]
  · rw [h]; exact hrecord _
  · rw [h]; exact hrecord _

/-! ## A payload, a bundle -/

theorem getRowOrigin_applyContributorRows (hc : Registered c) (hne : cid ≠ c.contributor_id)
    (rows : List Dict) (inst : Installation b) :
    getRowOrigin cid rid (eng.applyContributorRows c peer_id origin rows inst).2 =
      getRowOrigin cid rid inst := by
  induction rows generalizing inst with
  | nil => rfl
  | cons row rows ih =>
    rw [applyContributorRows]
    exact (ih _).trans (getRowOrigin_applyRow hc fun h => hne (Prod.mk.inj h).1)

theorem keepsRow_congr {inst inst' : Installation b} (exclude : List String)
    (h : ∀ rid, getRowOrigin cid rid inst = getRowOrigin cid rid inst') :
    keepsRow cid exclude inst = keepsRow cid exclude inst' := by
  funext row
  simp only [keepsRow, h]

/-- The payloads that a bundle is read as. -/
def payloadsOf (bundle : Bytes) : List (String × List Dict) :=
  match extractBundle bundle with
  | .ok (_, data) => data.rows
  | .error _ => []

theorem payloadsOf_buildTarball (manifest : BackupManifest)
    {payloads : List (String × ContributorExport)} (hn : (payloads.map Prod.fst).Nodup) :
    payloadsOf (buildTarball manifest payloads) = payloads.map fun p => (p.1, p.2.rows) := by
  obtain ⟨data, hdata, hrows⟩ := extractBundle_buildTarball manifest hn
  rw [payloadsOf, hdata]
  exact hrows

theorem payloadsOf_nodup (bundle : Bytes) : ((payloadsOf bundle).map Prod.fst).Nodup := by
  unfold payloadsOf
  split
  · rename_i data _
    exact data.nodup
  · exact List.nodup_nil

theorem applyBundle_eq (bundle : Bytes) (peer_id : String) (origin : Option String)
    (inst : Installation b) :
    eng.applyBundle bundle peer_id origin inst =
      eng.applyPayloads peer_id (originOf origin) (payloadsOf bundle) inst := by
  unfold applyBundle payloadsOf
  cases extractBundle bundle with
  | error e => rfl
  | ok r => rfl

theorem applyContributorRows_invariant {P : Installation b → Prop} {rows : List Dict}
    (hP : P inst)
    (hrow : ∀ row ∈ rows, ∀ inst, P inst → P (eng.applyRow c peer_id origin row inst).2) :
    P (eng.applyContributorRows c peer_id origin rows inst).2 := by
  induction rows generalizing inst with
  | nil => exact hP
  | cons row rows ih =>
    rw [applyContributorRows]
    exact ih (hrow row List.mem_cons_self inst hP) fun r hr => hrow r (List.mem_cons_of_mem _ hr)

/-- What every row of a bundle preserves, the bundle preserves. -/
theorem applyPayloads_invariant {P : Installation b → Prop} {payloads : List (String × List Dict)}
    (hP : P inst)
    (hrow : ∀ payload ∈ payloads, ∀ c, eng.backup.contributors.find payload.1 = some c →
      ∀ row ∈ payload.2, ∀ inst, P inst → P (eng.applyRow c peer_id origin row inst).2) :
    P (eng.applyPayloads peer_id origin payloads inst).2 := by
  induction payloads generalizing inst with
  | nil => exact hP
  | cons payload payloads ih =>
    rw [applyPayloads]
    refine ih ?_ fun p hp => hrow p (List.mem_cons_of_mem _ hp)
    rw [applyPayload]
    cases hf : eng.backup.contributors.find payload.1 with
    | none => exact hP
    | some c =>
      exact applyContributorRows_invariant hP fun row hr =>
        hrow payload List.mem_cons_self c hf row (List.mem_filter.1 hr).1

theorem getRowOrigin_applyPayload (peer_id origin rid : String) (inst : Installation b)
    (payload : String × List Dict)
    (happs : eng.backup = buildBackupService app_name app_version dir)
    (hne : cid ≠ payload.1) :
    getRowOrigin cid rid (eng.applyPayload peer_id origin payload inst).2 =
      getRowOrigin cid rid inst := by
  rw [applyPayload]
  cases hf : eng.backup.contributors.find payload.1 with
  | none => rfl
  | some c =>
    have hid : c.contributor_id = payload.1 := KeyedTable.key_of_find hf
    rw [happs] at hf
    exact getRowOrigin_applyContributorRows (registered_of_find hf) (hid ▸ hne) _ _

end MeshSyncEngine

end ScottyCore
