import ScottyCore.Lib.Run
import ScottyCore.Sync.PushDelta
import ScottyCore.Sync.Slot

namespace ScottyCore
open Python MeshSyncEngine
set_option autoImplicit true

variable {b b' : Backend} {m : Model}

/-! ## A bundle that carries another version -/

theorem eq_instant {d e : DateTime} (h : d.instant ≠ e.instant) :
    (Val.datetime d).eq (.datetime e) = false := by
  rw [Val.eq, DateTime.eq, decide_eq_false_iff_not]
  exact fun he => h he.2

theorem isNaive_eq_iff {d e : DateTime} (hd : b.native d = true) (he : b'.native e = true) :
    d.isNaive = e.isNaive ↔ b = b' := by
  rw [Backend.isNaive_of_native hd, Backend.isNaive_of_native he]
  cases b <;> cases b' <;> decide

theorem restamp_instant {d : DateTime} (h : b.native d = true) (b' : Backend) :
    (b'.restamp d).instant = d.instant := by
  have ho : d.utcoffset = b.offset := of_decide_eq_true h
  have hz : ∀ b : Backend, b.offset.getD 0 = 0 := by
    intro b
    cases b <;> rfl
  have hw : (b'.restamp d).wallMicros = d.wallMicros := rfl
  have hr : (b'.restamp d).utcoffset = b'.offset := rfl
  rw [DateTime.instant, DateTime.instant, hw, hr, ho, hz, hz]

/-- The moment of a version's last change. -/
def Row.stamp (r : Row b m) : Option Int := r.updatedAt.map DateTime.instant

theorem stamp_on {v : Row b m} (ht : m.timestamped = true) (b' : Backend) :
    (v.on b').stamp = v.stamp := by
  obtain ⟨d, hd, hv, hn⟩ := v.updatedAt_of_timestamped ht
  have hget := Row.get_on b' v (Model.updated_at_mem ht)
  change (v.on b').get "updated_at" = restampCell b' (v.get "updated_at") at hget
  rw [Row.stamp, Row.stamp, hd, Row.updatedAt, hget, hv]
  exact congrArg some (restamp_instant hn b')

/-- The timestamps of two versions differ. -/
def Row.otherStamp (v : Row b' m) (l : Row b m) : Prop :=
  (v.get "updated_at").eq (l.get "updated_at") = false

theorem otherStamp_of_stamp {v : Row b' m} {l : Row b m} (ht : m.timestamped = true)
    (h : v.stamp ≠ l.stamp) : v.otherStamp l := by
  obtain ⟨d, hd, hv, _⟩ := v.updatedAt_of_timestamped ht
  obtain ⟨e, he, hl, _⟩ := l.updatedAt_of_timestamped ht
  rw [Row.otherStamp, hv, hl]
  apply eq_instant
  intro hi
  rw [Row.stamp, Row.stamp, hd, he] at h
  exact h (congrArg some hi)

/-- No restore of a row under a key failed. -/
def NoRestoreFailure (log : Log) (m : Model) (key : Val) : Prop :=
  ∀ e ∈ log, Hits e.1 e.2.1 m key → e.2.2.isRestoreFailed = false

instance (log : Log) (m : Model) (key : Val) : Decidable (NoRestoreFailure log m key) :=
  inferInstanceAs (Decidable (∀ e ∈ log, _))

namespace MeshSyncEngine

variable {eng : MeshSyncEngine b} {c : Contributor b} {inst : Installation b}
  {v : Row b' m} {l : Row b m}

theorem find_applyRow_on (hc : Registered c)
    (hrow : Hits c.contributor_id row m v.id → Carries row v)
    (hl : inst.db.find m v.id = some (v.on b)) :
    (eng.applyRow c peer_id origin row inst).2.db.find m v.id = some (v.on b) := by
  by_cases hh : Hits c.contributor_id row m v.id
  · rcases find_applyRow_of_hits peer_id origin hc hh (hrow hh) hl with ⟨_, h⟩ | ⟨_, h⟩
    · rw [h, over_on]
    · rw [h]; exact hl
  · exact find_applyRow_of_not_hits hc hh hl

theorem find_applyRow_other (peer_id : String) (hc : Registered c) (ht : m.timestamped = true)
    (hrow : Hits c.contributor_id row m v.id → Carries row v) (hid : v.id = l.id)
    (hne : v.otherStamp l) (hl : inst.db.find m v.id = some l)
    (hf : Hits c.contributor_id row m v.id →
      (eng.applyRow c peer_id origin row inst).1.isRestoreFailed = false) :
    (eng.applyRow c peer_id origin row inst).2.db.find m v.id =
      if Hits c.contributor_id row m v.id ∧ Admits c.contributor_id origin eng.local_node.id v l
      then some (v.on b) else some l := by
  by_cases hh : Hits c.contributor_id row m v.id
  · have hv := verdict_hit origin eng.local_node.id ht (hid ▸ hh) (hrow hh)
      (hid ▸ hl)
    have happ := (applied_iff_verdict hc (hf hh)).trans hv
    rcases find_applyRow_of_hits peer_id origin hc hh (hrow hh) hl with ⟨ha, h⟩ | ⟨ha, h⟩
    · rw [if_pos ⟨hh, happ.1 ha⟩, h, Row.over_of_ne hne]
    · rw [if_neg fun h' => ha (happ.2 h'.2), h, hl]
  · rw [if_neg fun h => hh h.1]
    exact find_applyRow_of_not_hits hc hh hl

theorem find_applyContributorRows_other (peer_id origin : String) (inst : Installation b)
    (rows : List Dict) (hc : Registered c) (ht : m.timestamped = true)
    (hrow : ∀ row ∈ rows, Hits c.contributor_id row m v.id → Carries row v) (hid : v.id = l.id)
    (hne : v.otherStamp l) (hl : inst.db.find m v.id = some l)
    (hf : NoRestoreFailure (eng.applyContributorRows c peer_id origin rows inst).1 m v.id) :
    (eng.applyContributorRows c peer_id origin rows inst).2.db.find m v.id =
      if (∃ row ∈ rows, Hits c.contributor_id row m v.id) ∧
        Admits c.contributor_id origin eng.local_node.id v l
      then some (v.on b) else some l := by
  induction rows generalizing inst with
  | nil => rw [if_neg (by simp)]; exact hl
  | cons row rows ih =>
    have hstep := find_applyRow_other peer_id hc ht
      (hrow row List.mem_cons_self) hid hne hl fun hh =>
        hf _ (by rw [applyContributorRows]; exact List.mem_cons_self) hh
    have hrow' := fun r hr => hrow r (List.mem_cons_of_mem _ hr)
    rw [applyContributorRows] at hf ⊢
    by_cases ht' : Hits c.contributor_id row m v.id ∧
        Admits c.contributor_id origin eng.local_node.id v l
    · rw [if_pos ht'] at hstep
      rw [if_pos ⟨⟨row, List.mem_cons_self, ht'.1⟩, ht'.2⟩]
      exact applyContributorRows_invariant (P := fun i => i.db.find m v.id = some (v.on b)) hstep
        fun r hr i hi => find_applyRow_on hc (hrow' r hr) hi
    · rw [if_neg ht'] at hstep
      apply (ih _ hrow' hstep fun e he => hf e (List.mem_cons_of_mem _ he)).trans
      congr 1
      simp only [List.mem_cons, exists_eq_or_imp, eq_iff_iff]
      constructor
      · rintro ⟨h, ha⟩; exact ⟨.inr h, ha⟩
      · rintro ⟨h | h, ha⟩
        · exact (ht' ⟨h, ha⟩).elim
        · exact ⟨h, ha⟩

/-- A payload lets a version in over the stored row: its contributor carries it, the origin
filter keeps it and LWW admits it. -/
def LetsIn (origin loc : String) (inst : Installation b) (v : Row b' m) (l : Row b m)
    (payload : String × List Dict) : Prop :=
  (∃ row ∈ payload.2, Hits payload.1 row m v.id ∧ keepsRow payload.1 [loc] inst row = true) ∧
    Admits payload.1 origin loc v l

theorem noRestoreFailure_append {log log' : Log} (h : NoRestoreFailure (log ++ log') m key) :
    NoRestoreFailure log m key ∧ NoRestoreFailure log' m key :=
  ⟨fun e he => h e (List.mem_append_left _ he), fun e he => h e (List.mem_append_right _ he)⟩

/-- Every row that a payload's contributor restores over a row's key carries one version. -/
def Delivers (payloads : List (String × List Dict)) (v : Row b m) : Prop :=
  ∀ payload ∈ payloads, ∀ row ∈ payload.2, Hits payload.1 row m v.id → Carries row v

instance (payloads : List (String × List Dict)) (v : Row b m) : Decidable (Delivers payloads v) :=
  inferInstanceAs (Decidable (∀ payload ∈ payloads, ∀ row ∈ payload.2, _))

theorem find_applyPayload_other
    (happs : eng.backup = buildBackupService app_name app_version dir) (ht : m.timestamped = true)
    (hrow : ∀ row ∈ payload.2, Hits payload.1 row m v.id → Carries row v) (hid : v.id = l.id)
    (hne : v.otherStamp l) (hl : inst.db.find m v.id = some l)
    (hf : NoRestoreFailure (eng.applyPayload peer_id origin payload inst).1 m v.id) :
    (LetsIn origin eng.local_node.id inst v l payload ∧
        (eng.applyPayload peer_id origin payload inst).2.db.find m v.id = some (v.on b)) ∨
      (¬ LetsIn origin eng.local_node.id inst v l payload ∧
        (eng.applyPayload peer_id origin payload inst).2.db.find m v.id = some l) := by
  rw [applyPayload] at hf ⊢
  cases hfind : eng.backup.contributors.find payload.1 with
  | none =>
    refine .inr ⟨?_, hl⟩
    rintro ⟨⟨row, _, hh, _⟩, _⟩
    rw [happs] at hfind
    obtain ⟨c, hc⟩ := find_of_route b app_name app_version dir hh.1
    rw [hfind] at hc
    cases hc
  | some c =>
    have hcid : c.contributor_id = payload.1 := KeyedTable.key_of_find hfind
    have hc : Registered c := registered_of_find (happs ▸ hfind)
    rw [hfind] at hf
    have hfind' := find_applyContributorRows_other peer_id origin inst
      (filterRowsByOrigin payload.2 payload.1 [eng.local_node.id] inst) hc ht
      (fun row hr hh => hrow row (List.mem_filter.1 hr).1 (hcid ▸ hh)) hid hne hl
      (noRestoreFailure_append hf).2
    have hiff : ((∃ row ∈ filterRowsByOrigin payload.2 payload.1 [eng.local_node.id] inst,
        Hits c.contributor_id row m v.id) ∧
          Admits c.contributor_id origin eng.local_node.id v l) ↔
        LetsIn origin eng.local_node.id inst v l payload := by
      rw [hcid, LetsIn]
      refine and_congr_left fun _ => exists_congr fun row => ?_
      rw [filterRowsByOrigin, List.mem_filter]
      exact ⟨fun h => ⟨h.1.1, h.2, h.1.2⟩, fun h => ⟨⟨h.1, h.2.2⟩, h.2.1⟩⟩
    by_cases hin : LetsIn origin eng.local_node.id inst v l payload
    · exact .inl ⟨hin, hfind'.trans (if_pos (hiff.2 hin))⟩
    · exact .inr ⟨hin, hfind'.trans (if_neg fun h => hin (hiff.1 h))⟩

theorem letsIn_applyPayload
    (happs : eng.backup = buildBackupService app_name app_version dir)
    (hne : payload'.1 ≠ payload.1) :
    LetsIn origin loc (eng.applyPayload peer_id origin' payload inst).2 v l payload' ↔
      LetsIn origin loc inst v l payload' := by
  rw [LetsIn, LetsIn, keepsRow_congr _ fun rid =>
    getRowOrigin_applyPayload peer_id origin' rid inst payload happs hne]

/-- After a bundle the table holds the carried version exactly when a payload let it in. -/
theorem find_applyPayloads_other
    (happs : eng.backup = buildBackupService app_name app_version dir) (ht : m.timestamped = true)
    {payloads : List (String × List Dict)} (hn : (payloads.map Prod.fst).Nodup)
    (hrow : Delivers payloads v) (hid : v.id = l.id) (hne : v.otherStamp l)
    (hl : inst.db.find m v.id = some l)
    (hf : NoRestoreFailure (eng.applyPayloads peer_id origin payloads inst).1 m v.id) :
    ((∃ payload ∈ payloads, LetsIn origin eng.local_node.id inst v l payload) ∧
        (eng.applyPayloads peer_id origin payloads inst).2.db.find m v.id = some (v.on b)) ∨
      ((¬ ∃ payload ∈ payloads, LetsIn origin eng.local_node.id inst v l payload) ∧
        (eng.applyPayloads peer_id origin payloads inst).2.db.find m v.id = some l) := by
  induction payloads generalizing inst with
  | nil => exact .inr ⟨by simp, hl⟩
  | cons payload payloads ih =>
    obtain ⟨hp, hn'⟩ := List.nodup_cons.1 hn
    have hrow' : Delivers payloads v := fun p hp => hrow p (List.mem_cons_of_mem _ hp)
    rw [applyPayloads] at hf ⊢
    obtain ⟨hf₁, hf₂⟩ := noRestoreFailure_append hf
    rcases find_applyPayload_other happs ht (hrow payload List.mem_cons_self) hid hne hl hf₁ with
      ⟨hin, hstep⟩ | ⟨hout, hstep⟩
    · refine .inl ⟨⟨payload, List.mem_cons_self, hin⟩, ?_⟩
      refine applyPayloads_invariant (P := fun i => i.db.find m v.id = some (v.on b)) hstep ?_
      intro p hpm c hfind row hr i hi
      have hcid : c.contributor_id = p.1 := KeyedTable.key_of_find hfind
      exact find_applyRow_on (registered_of_find (happs ▸ hfind))
        (fun hh => hrow' p hpm row hr (hcid ▸ hh)) hi
    · have hcongr : ∀ p ∈ payloads,
          (LetsIn origin eng.local_node.id (eng.applyPayload peer_id origin payload inst).2 v l p ↔
            LetsIn origin eng.local_node.id inst v l p) := by
        intro p hpm
        apply letsIn_applyPayload happs
        intro he
        exact hp (List.mem_map.2 ⟨p, hpm, he⟩)
      rcases ih hn' hrow' hstep hf₂ with ⟨⟨p, hpm, hin⟩, h⟩ | ⟨hnone, h⟩
      · exact .inl ⟨⟨p, List.mem_cons_of_mem _ hpm, (hcongr p hpm).1 hin⟩, h⟩
      · refine .inr ⟨?_, h⟩
        rintro ⟨p, hpm, hin⟩
        rcases List.mem_cons.1 hpm with rfl | hpm
        · exact hout hin
        · exact hnone ⟨p, hpm, (hcongr p hpm).2 hin⟩

end MeshSyncEngine

end ScottyCore
