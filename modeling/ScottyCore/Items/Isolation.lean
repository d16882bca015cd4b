import ScottyCore.Items.Service
import ScottyCore.Lib.Raise

namespace ScottyCore
open Python ItemRepository ItemsService
set_option autoImplicit true

variable {sql : ItemSql} {tenant_id : Uuid} {t t' : ItemTable} {e : ItemEvent}

/-! ## What one call can do to the table -/

theorem mem_ofTenant : i ∈ ofTenant tenant_id t ↔ i ∈ t.rows ∧ i.tenant_id = tenant_id := by
  rw [ofTenant, List.mem_filter, decide_eq_true_eq]

theorem getOwned_eq_ok : getOwned item_id tenant_id t = .ok i ↔
    i ∈ ofTenant tenant_id t ∧ i.id = item_id := by
  rw [mem_ofTenant, getOwned, getById]
  cases hfind : t.find item_id with
  | none =>
    constructor
    · intro h
      cases h
    · rintro ⟨⟨hi, -⟩, hid⟩
      exact (KeyedTable.find_eq_none_iff.1 hfind i hi hid).elim
  | some item =>
    obtain ⟨hitem, hid⟩ := KeyedTable.find_eq_some_iff.1 hfind
    simp only [ne_eq, ite_not]
    split
    · rename_i howner
      constructor
      · intro h
        cases h
        exact ⟨⟨hitem, howner⟩, hid⟩
      · rintro ⟨⟨hi, -⟩, hid'⟩
        rw [KeyedTable.eq_of_mem hi hitem (hid'.trans hid.symm)]
    · rename_i howner
      constructor
      · intro h
        cases h
      · rintro ⟨⟨hi, hown⟩, hid'⟩
        rw [KeyedTable.eq_of_mem hi hitem (hid'.trans hid.symm)] at hown
        exact (howner hown).elim

/-- The two errors that tell another tenant's item from one that is not there are one. -/
def identify : Except AppError ItemResult → Except AppError ItemResult
  | .error (.notFound _ _) => .error (.forbidden "Item not accessible")
  | r => r

theorem getOwned_error (h : getOwned item_id tenant_id t = .error err) :
    identify (.error err) = .error (.forbidden "Item not accessible") := by
  rw [getOwned] at h
  split at h
  · cases h
    rfl
  · split at h
    · cases h
      rfl
    · cases h

theorem update_ok {item : Item} (h : ItemRepository.update item data now t = .ok (item', t')) :
    item'.id = item.id ∧ item'.tenant_id = item.tenant_id ∧ (t' = t ∨ t' = t.upsert item') := by
  simp only [ItemRepository.update] at h
  split at h
  · cases h
  · cases h
  · split at h
    · cases h
      exact ⟨rfl, rfl, .inl rfl⟩
    · cases h
      exact ⟨rfl, rfl, .inr rfl⟩

/-- A row is added under the new identifier, or replaced or removed among the tenant's own. -/
inductive OwnChange (tenant_id new_uuid : Uuid) (t : ItemTable) : ItemTable → Prop where
  | none : OwnChange tenant_id new_uuid t t
  | insert : t.find new_uuid = none → item.id = new_uuid → item.tenant_id = tenant_id →
      OwnChange tenant_id new_uuid t (t.upsert item)
  | update : old ∈ ofTenant tenant_id t → item.id = old.id → item.tenant_id = tenant_id →
      OwnChange tenant_id new_uuid t (t.upsert item)
  | delete : old ∈ ofTenant tenant_id t → OwnChange tenant_id new_uuid t (t.erase old.id)

theorem perform_ownChange (sql : ItemSql) (tenant_id : Uuid) (e : ItemEvent) (t : ItemTable) :
    OwnChange tenant_id e.new_uuid t (perform sql tenant_id e t).2 := by
  cases hattempt : attempt sql tenant_id e t with
  | error err =>
    rw [perform, hattempt]
    exact .none
  | ok outcome =>
    obtain ⟨result, committed⟩ := outcome
    rw [perform, hattempt]
    rw [attempt] at hattempt
    split at hattempt
    · obtain ⟨⟨item, t'⟩, hcreate, hattempt⟩ := bind_eq_ok.1 hattempt
      cases hattempt
      rw [ItemRepository.create] at hcreate
      split at hcreate
      · cases hcreate
      · rename_i hfresh
        cases hcreate
        exact .insert (by simpa using hfresh) rfl rfl
    · obtain ⟨item, -, hattempt⟩ := bind_eq_ok.1 hattempt
      cases hattempt
      exact .none
    · cases hattempt
      exact .none
    · obtain ⟨item, howned, hattempt⟩ := bind_eq_ok.1 hattempt
      obtain ⟨⟨item', t'⟩, hupdate, hattempt⟩ := bind_eq_ok.1 hattempt
      cases hattempt
      have hitem := (getOwned_eq_ok.1 howned).1
      obtain ⟨hid, htenant, rfl | rfl⟩ := update_ok hupdate
      · exact .none
      · exact .update hitem hid (htenant.trans (mem_ofTenant.1 hitem).2)
    · obtain ⟨item, howned, hattempt⟩ := bind_eq_ok.1 hattempt
      cases hattempt
      exact .delete (getOwned_eq_ok.1 howned).1
    · obtain ⟨rows, -, hattempt⟩ := bind_eq_ok.1 hattempt
      cases hattempt
      exact .none
    · obtain ⟨cutoff, -, hattempt⟩ := bind_eq_ok.1 hattempt
      cases hattempt
      exact .none

/-! ## What a change keeps -/

def ofOthers (tenant_id : Uuid) (t : ItemTable) : List Item :=
  t.rows.filter fun i => i.tenant_id ≠ tenant_id

/-- The row under the key of one of the tenant's items is that item. -/
theorem tenant_of_key (hold : old ∈ ofTenant tenant_id t) (hi : i ∈ t.rows) (h : i.id = old.id) :
    i.tenant_id = tenant_id := by
  obtain ⟨holdmem, hown⟩ := mem_ofTenant.1 hold
  rw [KeyedTable.eq_of_mem hi holdmem h, hown]

theorem OwnChange.others (h : OwnChange tenant_id new_uuid t t') :
    ofOthers tenant_id t' = ofOthers tenant_id t := by
  cases h with
  | none => rfl
  | insert hfresh hid htenant =>
    apply KeyedTable.filter_upsertRows_of_neg
    · simpa using htenant
    · intro i hi hkey
      exact (KeyedTable.find_eq_none_iff.1 hfresh i hi (hkey.trans hid)).elim
  | update hold hid htenant =>
    apply KeyedTable.filter_upsertRows_of_neg
    · simpa using htenant
    · intro i hi hkey
      simpa using tenant_of_key hold hi (hkey.trans hid)
  | delete hold =>
    apply KeyedTable.filter_erase_of_neg
    intro i hi hkey
    simpa using tenant_of_key hold hi hkey

/-- A row is new, or was there for the same tenant. -/
theorem OwnChange.mem (h : OwnChange tenant_id new_uuid t t') (hi : i ∈ t'.rows) :
    i.id = new_uuid ∨ ∃ j ∈ t.rows, j.id = i.id ∧ j.tenant_id = i.tenant_id := by
  cases h with
  | none => exact .inr ⟨i, hi, rfl, rfl⟩
  | insert _ hid _ =>
    rcases KeyedTable.mem_upsert_iff.1 hi with rfl | ⟨hi, -⟩
    · exact .inl hid
    · exact .inr ⟨i, hi, rfl, rfl⟩
  | update hold hid htenant =>
    rcases KeyedTable.mem_upsert_iff.1 hi with rfl | ⟨hi, -⟩
    · obtain ⟨holdmem, hown⟩ := mem_ofTenant.1 hold
      exact .inr ⟨_, holdmem, hid.symm, hown.trans htenant.symm⟩
    · exact .inr ⟨i, hi, rfl, rfl⟩
  | delete => exact .inr ⟨i, (List.mem_filter.1 hi).1, rfl, rfl⟩

/-! ## Two tables with the same items of a tenant -/

theorem ofTenant_upsert_of_mem (hold : old ∈ ofTenant tenant_id t) (hid : item.id = old.id)
    (htenant : item.tenant_id = tenant_id) :
    ofTenant tenant_id (t.upsert item) =
      KeyedTable.upsertRows Item.id item (ofTenant tenant_id t) := by
  apply KeyedTable.filter_upsertRows_of_pos
  · simpa using htenant
  · intro i hi hkey
    simpa using tenant_of_key hold hi (hkey.trans hid)

theorem ofTenant_upsert_of_fresh (hfresh : t.find item.id = none)
    (htenant : item.tenant_id = tenant_id) :
    ofTenant tenant_id (t.upsert item) =
      KeyedTable.upsertRows Item.id item (ofTenant tenant_id t) := by
  apply KeyedTable.filter_upsertRows_of_pos
  · simpa using htenant
  · intro i hi hkey
    exact (KeyedTable.find_eq_none_iff.1 hfresh i hi hkey).elim

theorem upsert_alike_of_mem (h : ofTenant tenant_id t = ofTenant tenant_id t')
    (hold : old ∈ ofTenant tenant_id t) (hid : item.id = old.id)
    (htenant : item.tenant_id = tenant_id) :
    ofTenant tenant_id (t.upsert item) = ofTenant tenant_id (t'.upsert item) := by
  rw [ofTenant_upsert_of_mem hold hid htenant, ofTenant_upsert_of_mem (h ▸ hold) hid htenant, h]

theorem upsert_alike_of_fresh (h : ofTenant tenant_id t = ofTenant tenant_id t')
    (hfresh : t.find item.id = none) (hfresh' : t'.find item.id = none)
    (htenant : item.tenant_id = tenant_id) :
    ofTenant tenant_id (t.upsert item) = ofTenant tenant_id (t'.upsert item) := by
  rw [ofTenant_upsert_of_fresh hfresh htenant, ofTenant_upsert_of_fresh hfresh' htenant, h]

theorem ofTenant_erase (k : Uuid) :
    ofTenant tenant_id (t.erase k) = (ofTenant tenant_id t).filter fun i => i.id ≠ k := by
  rw [ofTenant, ofTenant, KeyedTable.erase, List.filter_filter, List.filter_filter]
  simp only [Bool.and_comm]

/-- The tables give the same to a call, as far as the tenant can see, and stay alike. -/
structure Alike (sql : ItemSql) (tenant_id : Uuid) (e : ItemEvent) (t t' : ItemTable) : Prop where
  result : identify (perform sql tenant_id e t).1 = identify (perform sql tenant_id e t').1
  items : ofTenant tenant_id (perform sql tenant_id e t).2 =
    ofTenant tenant_id (perform sql tenant_id e t').2

theorem alike_of_ok (ha : attempt sql tenant_id e t = .ok (r, committed))
    (ha' : attempt sql tenant_id e t' = .ok (r, committed'))
    (h : ofTenant tenant_id (committed.getD t) = ofTenant tenant_id (committed'.getD t')) :
    Alike sql tenant_id e t t' := by
  constructor
  · rw [perform, perform, ha, ha']
  · rw [perform, perform, ha, ha']
    exact h

theorem alike_of_error (h : ofTenant tenant_id t = ofTenant tenant_id t')
    (ha : attempt sql tenant_id e t = .error err) (ha' : attempt sql tenant_id e t' = .error err')
    (hsame : identify (.error err) = identify (.error err')) : Alike sql tenant_id e t t' := by
  constructor
  · rw [perform, perform, ha, ha']
    exact hsame
  · rw [perform, perform, ha, ha']
    exact h

theorem getOwned_alike (item_id : Uuid) (h : ofTenant tenant_id t = ofTenant tenant_id t') :
    (∃ i ∈ ofTenant tenant_id t, i.id = item_id ∧ getOwned item_id tenant_id t = .ok i ∧
        getOwned item_id tenant_id t' = .ok i) ∨
      ∃ err err', getOwned item_id tenant_id t = .error err ∧
        getOwned item_id tenant_id t' = .error err' ∧
        identify (.error err) = identify (.error err') := by
  cases hown : getOwned item_id tenant_id t with
  | ok i =>
    obtain ⟨hi, hid⟩ := getOwned_eq_ok.1 hown
    exact .inl ⟨i, hi, hid, rfl, getOwned_eq_ok.2 ⟨h ▸ hi, hid⟩⟩
  | error err =>
    cases hown' : getOwned item_id tenant_id t' with
    | ok i =>
      obtain ⟨hi, hid⟩ := getOwned_eq_ok.1 hown'
      rw [getOwned_eq_ok.2 ⟨h.symm ▸ hi, hid⟩] at hown
      cases hown
    | error err' =>
      exact .inr ⟨err, err', rfl, rfl, (getOwned_error hown).trans (getOwned_error hown').symm⟩

theorem update_alike {item : Item} (hitem : item ∈ ofTenant tenant_id t)
    (h : ofTenant tenant_id t = ofTenant tenant_id t') (data : ItemUpdate) (now : DateTime) :
    (∃ err, ItemRepository.update item data now t = .error err ∧
        ItemRepository.update item data now t' = .error err) ∨
      ∃ item' t₁ t₁', ItemRepository.update item data now t = .ok (item', t₁) ∧
        ItemRepository.update item data now t' = .ok (item', t₁') ∧
        ofTenant tenant_id t₁ = ofTenant tenant_id t₁' := by
  have hown := (mem_ofTenant.1 hitem).2
  simp only [ItemRepository.update]
  split
  · exact .inl ⟨_, rfl, rfl⟩
  · exact .inl ⟨_, rfl, rfl⟩
  · split
    · exact .inr ⟨_, _, _, rfl, rfl, h⟩
    · exact .inr ⟨_, _, _, rfl, rfl, upsert_alike_of_mem h hitem rfl hown⟩

theorem perform_alike (h : ofTenant tenant_id t = ofTenant tenant_id t')
    (hfresh : t.find e.new_uuid = none) (hfresh' : t'.find e.new_uuid = none) :
    Alike sql tenant_id e t t' := by
  obtain ⟨call, now, new_uuid⟩ := e
  cases call with
  | create data user_id =>
    have hcreate : ∀ {t : ItemTable}, t.find new_uuid = none →
        ItemRepository.create new_uuid tenant_id data.name data.description (some user_id) now t =
          .ok (⟨new_uuid, tenant_id, data.name, data.description, true, some user_id,
              some (searchVector data.name data.description), now, now⟩,
            t.upsert ⟨new_uuid, tenant_id, data.name, data.description, true, some user_id,
              some (searchVector data.name data.description), now, now⟩) := by
      intro t hnone
      rw [ItemRepository.create, hnone]
      rfl
    exact alike_of_ok (bind_eq_ok.2 ⟨_, hcreate hfresh, rfl⟩)
      (bind_eq_ok.2 ⟨_, hcreate hfresh', rfl⟩) (upsert_alike_of_fresh h hfresh hfresh' rfl)
  | get item_id =>
    rcases getOwned_alike item_id h with ⟨i, -, -, hown, hown'⟩ | ⟨err, err', hown, hown', hsame⟩
    · exact alike_of_ok (bind_eq_ok.2 ⟨i, hown, rfl⟩) (bind_eq_ok.2 ⟨i, hown', rfl⟩) h
    · exact alike_of_error h (bind_of_error hown) (bind_of_error hown') hsame
  | update item_id data =>
    rcases getOwned_alike item_id h with ⟨i, hi, -, hown, hown'⟩ | ⟨err, err', hown, hown', hsame⟩
    · rcases update_alike hi h data now with ⟨err, hupd, hupd'⟩ | ⟨i', t₁, t₁', hupd, hupd', hsame⟩
      · exact alike_of_error h (bind_eq_error hown (bind_of_error hupd))
          (bind_eq_error hown' (bind_of_error hupd')) rfl
      · exact alike_of_ok (bind_eq_ok.2 ⟨i, hown, bind_eq_ok.2 ⟨_, hupd, rfl⟩⟩)
          (bind_eq_ok.2 ⟨i, hown', bind_eq_ok.2 ⟨_, hupd', rfl⟩⟩) hsame
    · exact alike_of_error h (bind_of_error hown) (bind_of_error hown') hsame
  | delete item_id =>
    rcases getOwned_alike item_id h with ⟨i, -, -, hown, hown'⟩ | ⟨err, err', hown, hown', hsame⟩
    · refine alike_of_ok (bind_eq_ok.2 ⟨i, hown, rfl⟩) (bind_eq_ok.2 ⟨i, hown', rfl⟩) ?_
      rw [Option.getD_some, Option.getD_some, ItemRepository.delete, ItemRepository.delete,
        ofTenant_erase, ofTenant_erase, h]
    · exact alike_of_error h (bind_of_error hown) (bind_of_error hown') hsame
  | list filters =>
    have hsame : ItemRepository.list sql tenant_id filters t' =
        ItemRepository.list sql tenant_id filters t := by
      rw [ItemRepository.list, ItemRepository.list, h]
    have ha' : attempt sql tenant_id ⟨.list filters, now, new_uuid⟩ t' =
        attempt sql tenant_id ⟨.list filters, now, new_uuid⟩ t := by
      simp only [attempt, hsame]
    exact alike_of_ok rfl ha' h
  | searchFts query limit =>
    have hsame : searchFts sql tenant_id query limit t' = searchFts sql tenant_id query limit t := by
      rw [searchFts, searchFts, searchFtsPg, searchFtsPg, searchFtsSqlite, searchFtsSqlite, h]
    cases hrows : searchFts sql tenant_id query limit t with
    | error err => exact alike_of_error h (bind_of_error hrows) (bind_of_error (hsame.trans hrows)) rfl
    | ok rows =>
      exact alike_of_ok (bind_eq_ok.2 ⟨rows, hrows, rfl⟩)
        (bind_eq_ok.2 ⟨rows, hsame.trans hrows, rfl⟩) h
  | checkRetention retention_days =>
    cases hcutoff : retentionCutoff now retention_days with
    | error err => exact alike_of_error h (bind_of_error hcutoff) (bind_of_error hcutoff) rfl
    | ok cutoff =>
      have hsame : listOlderThan tenant_id cutoff t' = listOlderThan tenant_id cutoff t := by
        rw [listOlderThan, listOlderThan, h]
      have ha' : attempt sql tenant_id ⟨.checkRetention retention_days, now, new_uuid⟩ t' =
          attempt sql tenant_id ⟨.checkRetention retention_days, now, new_uuid⟩ t := by
        simp only [attempt, hcutoff, bind, Except.bind, hsame]
      have ha : attempt sql tenant_id ⟨.checkRetention retention_days, now, new_uuid⟩ t =
          .ok (.report ⟨tenant_id, retention_days, cutoff, (listOlderThan tenant_id cutoff t).length,
            (listOlderThan tenant_id cutoff t).map .modelValidate⟩, none) :=
        bind_eq_ok.2 ⟨cutoff, hcutoff, rfl⟩
      exact alike_of_ok ha (ha'.trans ha) h

/-! ## What is returned -/

theorem mem_of_applyLimit {rows rows' : List α} (h : applyLimit sql limit rows = .ok rows')
    (hx : x ∈ rows') : x ∈ rows := by
  rw [applyLimit] at h
  split at h
  · cases h
    exact List.mem_of_mem_take hx
  · split at h
    · cases h
      exact hx
    · cases h

theorem mem_of_searchFts {rows : List (Item × String)}
    (h : searchFts sql tenant_id query limit t = .ok rows) (hr : r ∈ rows) :
    r.1 ∈ ofTenant tenant_id t := by
  rw [searchFts] at h
  split at h
  · obtain ⟨found, hfound, h⟩ := bind_eq_ok.1 h
    cases h
    obtain ⟨i, hi, rfl⟩ := List.mem_map.1 hr
    exact (List.mem_filter.1 (List.mem_mergeSort.1 (mem_of_applyLimit hfound hi))).1
  · rw [searchFtsSqlite] at h
    split at h
    · cases h
      cases hr
    · obtain ⟨found, hfound, h⟩ := bind_eq_ok.1 h
      cases h
      obtain ⟨i, hi, rfl⟩ := List.mem_map.1 hr
      exact (List.mem_filter.1 (mem_of_applyLimit hfound hi)).1

theorem mem_of_list (h : i ∈ (ItemRepository.list sql tenant_id filters t).1) :
    i ∈ ofTenant tenant_id t := by
  have hsorted := List.mem_of_mem_drop (List.mem_of_mem_take h)
  exact (List.mem_filter.1 (List.mem_filter.1 (List.mem_mergeSort.1 hsorted)).1).1

theorem mem_of_listOlderThan (h : i ∈ listOlderThan tenant_id cutoff t) :
    i ∈ ofTenant tenant_id t :=
  (List.mem_filter.1 (List.mem_mergeSort.1 h)).1

theorem tenant_of_modelValidate {items : List Item} (h : ∀ i ∈ items, i ∈ ofTenant tenant_id t) :
    ∀ r ∈ items.map ItemRead.modelValidate, r.tenant_id = tenant_id := by
  intro r hr
  obtain ⟨i, hi, rfl⟩ := List.mem_map.1 hr
  exact (mem_ofTenant.1 (h i hi)).2

theorem attempt_items (h : attempt sql tenant_id e t = .ok (result, committed)) :
    ∀ r ∈ result.items, r.tenant_id = tenant_id := by
  rw [attempt] at h
  split at h
  · obtain ⟨⟨item, t'⟩, hcreate, h⟩ := bind_eq_ok.1 h
    cases h
    rw [ItemRepository.create] at hcreate
    split at hcreate
    · cases hcreate
    · cases hcreate
      exact List.forall_mem_singleton.2 rfl
  · obtain ⟨item, hown, h⟩ := bind_eq_ok.1 h
    cases h
    exact List.forall_mem_singleton.2 (mem_ofTenant.1 (getOwned_eq_ok.1 hown).1).2
  · cases h
    exact tenant_of_modelValidate fun i hi => mem_of_list hi
  · obtain ⟨item, hown, h⟩ := bind_eq_ok.1 h
    obtain ⟨⟨item', t'⟩, hupdate, h⟩ := bind_eq_ok.1 h
    cases h
    obtain ⟨-, hsame, -⟩ := update_ok hupdate
    have htenant : item'.tenant_id = tenant_id :=
      hsame.trans (mem_ofTenant.1 (getOwned_eq_ok.1 hown).1).2
    intro r hr
    rw [List.mem_singleton.1 hr]
    exact htenant
  · obtain ⟨item, hown, h⟩ := bind_eq_ok.1 h
    cases h
    intro r hr
    cases hr
  · obtain ⟨rows, hrows, h⟩ := bind_eq_ok.1 h
    cases h
    intro r hr
    obtain ⟨hit, hhit, rfl⟩ := List.mem_map.1 hr
    obtain ⟨row, hrow, rfl⟩ := List.mem_map.1 hhit
    exact (mem_ofTenant.1 (mem_of_searchFts hrows hrow)).2
  · obtain ⟨cutoff, hcutoff, h⟩ := bind_eq_ok.1 h
    cases h
    exact tenant_of_modelValidate fun i hi => mem_of_listOlderThan hi

theorem perform_items (h : (perform sql tenant_id e t).1 = .ok result) :
    ∀ r ∈ result.items, r.tenant_id = tenant_id := by
  rw [perform] at h
  split at h
  · rename_i hattempt
    cases h
    exact attempt_items hattempt
  · cases h

/-! ## Runs -/

/-- No row has an identifier that is still to be drawn. -/
def DrawsFresh (events : List ItemEvent) (t : ItemTable) : Prop :=
  ∀ e ∈ events, t.find e.new_uuid = none

theorem DrawsFresh.perform (h : DrawsFresh (e :: events) t)
    (hn : ((e :: events).map ItemEvent.new_uuid).Nodup) :
    DrawsFresh events (perform sql tenant_id e t).2 := by
  intro e' he'
  rw [KeyedTable.find_eq_none_iff]
  intro i hi hid
  rcases (perform_ownChange sql tenant_id e t).mem hi with hnew | ⟨j, hj, hji, -⟩
  · exact (List.nodup_cons.1 hn).1 (List.mem_map.2 ⟨e', he', hid.symm.trans hnew⟩)
  · have hfresh := KeyedTable.find_eq_none_iff.1 (h e' (List.mem_cons_of_mem _ he'))
    exact hfresh j hj (hji.trans hid)

/-- The calls of one tenant, in two stores. -/
structure ItemsIsolated (sql : ItemSql) (tenant_id : Uuid) (events : List ItemEvent)
    (t t' : ItemTable) : Prop where
  results : (Calls.run (perform sql tenant_id) events t).1.map identify =
    (Calls.run (perform sql tenant_id) events t').1.map identify
  items : ofTenant tenant_id (Calls.run (perform sql tenant_id) events t).2 =
    ofTenant tenant_id (Calls.run (perform sql tenant_id) events t').2
  returned : ∀ r ∈ (Calls.run (perform sql tenant_id) events t).1, ∀ result, r = .ok result →
    ∀ i ∈ result.items, i.tenant_id = tenant_id
  others : ofOthers tenant_id (Calls.run (perform sql tenant_id) events t).2 =
    ofOthers tenant_id t
  tenants : ∀ i ∈ t.rows, ∀ j ∈ (Calls.run (perform sql tenant_id) events t).2.rows,
    i.id = j.id → i.tenant_id = j.tenant_id

theorem items_isolated (sql : ItemSql) (tenant_id : Uuid) (events : List ItemEvent)
    (hagree : ofTenant tenant_id t = ofTenant tenant_id t')
    (hdrawn : (events.map ItemEvent.new_uuid).Nodup) (hfresh : DrawsFresh events t)
    (hfresh' : DrawsFresh events t') : ItemsIsolated sql tenant_id events t t' := by
  have halike := Calls.run_agree (perform sql tenant_id) identify
    (R := fun events t t' => ofTenant tenant_id t = ofTenant tenant_id t' ∧
      (events.map ItemEvent.new_uuid).Nodup ∧ DrawsFresh events t ∧ DrawsFresh events t')
    ⟨hagree, hdrawn, hfresh, hfresh'⟩ (by
      rintro e events t t' ⟨hagree, hdrawn, hfresh, hfresh'⟩
      have hstep : Alike sql tenant_id e t t' :=
        perform_alike hagree (hfresh e List.mem_cons_self) (hfresh' e List.mem_cons_self)
      exact ⟨hstep.result, hstep.items, (List.nodup_cons.1 hdrawn).2, hfresh.perform hdrawn,
        hfresh'.perform hdrawn⟩)
  refine ⟨halike.1, halike.2.1, ?_, ?_, ?_⟩
  · apply Calls.forall_results (perform sql tenant_id) (I := fun _ _ => True)
      (P := fun r => ∀ result, r = .ok result → ∀ i ∈ result.items, i.tenant_id = tenant_id) trivial
    intro e events t _
    exact ⟨fun result h => perform_items h, trivial⟩
  · apply Calls.run_invariant (perform sql tenant_id) (I := fun _ u => ofOthers tenant_id u = ofOthers tenant_id t) rfl
    intro e events u hu
    exact (perform_ownChange sql tenant_id e u).others.trans hu
  · have hinv := Calls.run_invariant (perform sql tenant_id) (s := t)
      (I := fun events u => DrawsFresh events t ∧
        ∀ i ∈ t.rows, ∀ j ∈ u.rows, i.id = j.id → i.tenant_id = j.tenant_id)
      ⟨hfresh, fun i hi j hj hid => by rw [KeyedTable.eq_of_mem hi hj hid]⟩ (by
        rintro e events u ⟨hfresh, hu⟩
        refine ⟨fun e' he' => hfresh e' (List.mem_cons_of_mem _ he'), ?_⟩
        intro i hi j hj hid
        rcases (perform_ownChange sql tenant_id e u).mem hj with hnew | ⟨k, hk, hkj, htenant⟩
        · have hnone := KeyedTable.find_eq_none_iff.1 (hfresh e List.mem_cons_self)
          exact (hnone i hi (hid.trans hnew)).elim
        · exact (hu i hi k hk (hid.trans hkj.symm)).trans htenant)
    exact hinv.2

/-! ## A tenant that asks for the item of another one -/

/-- Texts are matched and sorted as they are. -/
def plainSql : ItemSql where
  backend := .sqlite
  ilike value pattern := value = pattern
  nameLe a b := decide (a ≤ b)
  tsMatches vector query := vector = query
  tsRankGe _ _ _ := true
  tsHeadline vector _ := vector

theorem valid_itemDay : (1 ≤ 2024 ∧ 2024 ≤ 9999) ∧ (1 ≤ 1 ∧ 1 ≤ 12) ∧
    (1 ≤ 1 ∧ 1 ≤ daysInMonth 2024 1) ∧ 0 < 24 ∧ 0 < 60 ∧ 0 < 60 ∧ 0 < 1000000 ∧
    ∀ o ∈ (none : Option Int), o.natAbs < 86400 := by decide

def itemDay : DateTime := ⟨2024, 1, 1, 0, 0, 0, 0, none, valid_itemDay⟩

/-- An item of the tenant with the number. -/
def plainItem (id tenant : BitVec 128) : Item :=
  ⟨⟨id⟩, ⟨tenant⟩, "Report", none, true, none, some "Report", itemDay, itemDay⟩

def ownStore : ItemTable := (∅ : ItemTable).upsert (plainItem 1 1)

def sharedStore : ItemTable := ((∅ : ItemTable).upsert (plainItem 2 2)).upsert (plainItem 1 1)

theorem foreign_item_refused : ItemsIsolated plainSql ⟨1⟩
    [⟨.get ⟨2⟩, itemDay, ⟨3⟩⟩, ⟨.create ⟨"Plan", none⟩ ⟨9⟩, itemDay, ⟨4⟩⟩] sharedStore ownStore := by
  have hshared : DrawsFresh
      [⟨.get ⟨2⟩, itemDay, ⟨3⟩⟩, ⟨.create ⟨"Plan", none⟩ ⟨9⟩, itemDay, ⟨4⟩⟩] sharedStore :=
    List.forall_mem_cons.2 ⟨rfl, List.forall_mem_singleton.2 rfl⟩
  have hown : DrawsFresh
      [⟨.get ⟨2⟩, itemDay, ⟨3⟩⟩, ⟨.create ⟨"Plan", none⟩ ⟨9⟩, itemDay, ⟨4⟩⟩] ownStore :=
    List.forall_mem_cons.2 ⟨rfl, List.forall_mem_singleton.2 rfl⟩
  exact items_isolated plainSql ⟨1⟩ _ rfl (by decide) hshared hown

end ScottyCore
