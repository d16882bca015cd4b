import Mathlib.Data.List.Induction
import ScottyCore.Lib.Run
import ScottyCore.Settings.Reads

namespace ScottyCore
open Python TransitionSystem Validation
set_option autoImplicit true

/-! ## One record of settings -/

/-- The record that `set_global`, `set_tenant` or `set_user` changes. -/
inductive SettingsScope where
  | global
  | tenant (tenant_id : String)
  | user (user_id : String)

namespace SettingsScope

def name : SettingsScope → String
  | global => "global"
  | tenant _ => "tenant"
  | user _ => "user"

def scope_id : SettingsScope → Option String
  | global => none
  | tenant i | user i => some i

def fields (c : Coercions) : SettingsScope → List Field
  | global => globalFields c
  | tenant _ => tenantFields c
  | user _ => userFields c

def incoming : SettingsScope → JsonDict → JsonDict
  | global, data => SettingsTable.incoming data
  | tenant _, data | user _, data => data

/-- The first transaction of a call. -/
def read (c : Coercions) (rows : SettingsTable) : SettingsScope → Except (List FieldError) JsonDict
  | global => rows.getGlobal c
  | tenant i => rows.getTenant c i
  | user i => rows.getUser c i

def stored (sc : SettingsScope) (rows : SettingsTable) : JsonDict := rows.stored sc.name sc.scope_id

end SettingsScope

/-! ## Calls that run at the same time -/

/-- What a call does next. Only `set_global` fetches the SMTP password, in a transaction of its
own. -/
inductive UpdateStage where
  | reading
  | password (current : JsonDict)
  | writing (current : JsonDict)

structure Update where
  data : JsonDict
  stage : UpdateStage

def SettingsScope.afterRead (current : JsonDict) : SettingsScope → UpdateStage
  | global => .password current
  | tenant _ | user _ => .writing current

/-- The stored rows, the running calls, and the patches of the calls that have returned. -/
structure UpdateState where
  rows : SettingsTable
  running : List Update
  finished : List JsonDict

inductive UpdateEvent where
  | start (data : JsonDict)
  | advance (before : List Update) (update : Update) (after : List Update)

/-- Calls on one record, interleaved. Each of their transactions is one step. -/
inductive UpdateStep (c : Coercions) (sc : SettingsScope) :
    UpdateState → UpdateEvent → UpdateState → Prop where
  | start : (data.map Prod.fst).Nodup →
      UpdateStep c sc s (.start data) { s with running := s.running ++ [⟨data, .reading⟩] }
  | read {before after : List Update} : s.running = before ++ ⟨data, .reading⟩ :: after →
      sc.read c s.rows = .ok current →
      UpdateStep c sc s (.advance before ⟨data, .reading⟩ after)
        { s with running := before ++ ⟨data, sc.afterRead current⟩ :: after }
  | readPassword {before after : List Update} :
      s.running = before ++ ⟨data, .password current⟩ :: after →
      UpdateStep c sc s (.advance before ⟨data, .password current⟩ after)
        { s with running := before ++ ⟨data, .writing (current.set "smtp_password"
            ((s.rows.get "global" none "smtp_password").getD .null))⟩ :: after }
  | write {before after : List Update} : s.running = before ++ ⟨data, .writing current⟩ :: after →
      validate (sc.fields c) (current.merge (sc.incoming data)) = .ok validated →
      UpdateStep c sc s (.advance before ⟨data, .writing current⟩ after)
        ⟨s.rows.storeIn sc.name sc.scope_id validated, before ++ after, s.finished ++ [data]⟩
  | failRead {before after : List Update} : s.running = before ++ ⟨data, .reading⟩ :: after →
      sc.read c s.rows = .error errors →
      UpdateStep c sc s (.advance before ⟨data, .reading⟩ after)
        { s with running := before ++ after }
  | failWrite {before after : List Update} :
      s.running = before ++ ⟨data, .writing current⟩ :: after →
      validate (sc.fields c) (current.merge (sc.incoming data)) = .error errors →
      UpdateStep c sc s (.advance before ⟨data, .writing current⟩ after)
        { s with running := before ++ after }

/-- What a call writes was not changed since it was read, its own patch aside. -/
def WritesFresh (c : Coercions) (sc : SettingsScope) (s : UpdateState) : UpdateEvent → Prop
  | .advance _ ⟨data, .writing current⟩ _ => ∀ f ∈ sc.fields c,
      (sc.incoming data).lookup f.name = none → f.value current = f.value (sc.stored s.rows)
  | _ => True

/-- Every patched key holds the patched value, and every other key its old value. -/
def UpdatesKept (c : Coercions) (sc : SettingsScope) (rows₀ : SettingsTable) (s : UpdateState) :
    Prop :=
  ∀ f ∈ sc.fields c,
    (∀ data ∈ s.finished, ∀ j, (sc.incoming data).lookup f.name = some j →
      ∃ v, f.check j = .ok v ∧ (sc.stored s.rows).lookup f.name = some v) ∧
    ((∀ data ∈ s.finished, (sc.incoming data).lookup f.name = none) →
      f.value (sc.stored s.rows) = f.value (sc.stored rows₀))

/-- The patch that named a key last. -/
def SettingsScope.latestPatch (sc : SettingsScope) (key : String) (finished : List JsonDict) :
    Option Json :=
  finished.foldl (fun found data => ((sc.incoming data).lookup key).or found) none

structure UpdateInv (c : Coercions) (sc : SettingsScope) (rows₀ : SettingsTable) (s : UpdateState) :
    Prop where
  distinct : s.rows.Distinct
  running : ∀ u ∈ s.running, (u.data.map Prod.fst).Nodup
  patched : ∀ f ∈ sc.fields c, ∀ j, sc.latestPatch f.name s.finished = some j →
    ∃ v, f.check j = .ok v ∧ (sc.stored s.rows).lookup f.name = some v
  old : ∀ f ∈ sc.fields c, sc.latestPatch f.name s.finished = none →
    f.value (sc.stored s.rows) = f.value (sc.stored rows₀)

section
variable {c : Coercions} {sc : SettingsScope} {rows₀ : SettingsTable} {s s' : UpdateState}

namespace SettingsScope

theorem latestPatch_concat (sc : SettingsScope) (key : String) (finished : List JsonDict)
    (data : JsonDict) : sc.latestPatch key (finished ++ [data]) =
      ((sc.incoming data).lookup key).or (sc.latestPatch key finished) := by
  rw [latestPatch, List.foldl_append, ← latestPatch]
  rfl

theorem latestPatch_eq_none {finished : List JsonDict}
    (h : ∀ data ∈ finished, (sc.incoming data).lookup key = none) :
    sc.latestPatch key finished = none := by
  induction finished using List.reverseRecOn with
  | nil => rfl
  | append_singleton finished data ih =>
    rw [latestPatch_concat, h data (List.mem_append_right _ List.mem_cons_self),
      ih fun d hd => h d (List.mem_append_left _ hd)]
    rfl

theorem incoming_sublist (sc : SettingsScope) (data : JsonDict) :
    (sc.incoming data).Sublist data := by
  cases sc with
  | global =>
    change (SettingsTable.incoming data).Sublist data
    rw [SettingsTable.incoming]
    split
    · split
      · exact List.filter_sublist
      · exact List.Sublist.refl _
    · exact List.filter_sublist
    · exact List.Sublist.refl _
  | tenant _ => exact List.Sublist.refl _
  | user _ => exact List.Sublist.refl _

theorem incoming_nodup (sc : SettingsScope) {data : JsonDict} (h : (data.map Prod.fst).Nodup) :
    ((sc.incoming data).map Prod.fst).Nodup :=
  List.Nodup.sublist ((sc.incoming_sublist data).map Prod.fst) h

theorem mem_keys_of_incoming {data : JsonDict} (h : (sc.incoming data).lookup key = some j) :
    key ∈ data.map Prod.fst := by
  apply ((sc.incoming_sublist data).map Prod.fst).subset
  by_contra hkey
  rw [JsonDict.lookup_eq_none_of_not_mem hkey] at h
  cases h

/-- Among patches with disjoint keys, the one that names a key is the last to do so. -/
theorem latestPatch_of_disjoint {finished : List JsonDict}
    (hdisjoint : finished.Pairwise fun d e => (d.map Prod.fst).Disjoint (e.map Prod.fst))
    (hdata : data ∈ finished) (hj : (sc.incoming data).lookup key = some j) :
    sc.latestPatch key finished = some j := by
  induction finished using List.reverseRecOn with
  | nil => cases hdata
  | append_singleton finished last ih =>
    obtain ⟨hfinished, -, hlast⟩ := List.pairwise_append.1 hdisjoint
    rw [latestPatch_concat]
    rcases List.mem_append.1 hdata with hdata | hdata
    · have hother : (sc.incoming last).lookup key = none := by
        cases hthere : (sc.incoming last).lookup key with
        | none => rfl
        | some j' =>
          exact (hlast data hdata last List.mem_cons_self (mem_keys_of_incoming hj)
            (mem_keys_of_incoming hthere)).elim
      rw [hother]
      exact ih hfinished hdata
    · rw [List.mem_singleton.1 hdata] at hj
      rw [hj]
      rfl

theorem nodup_fields (c : Coercions) (sc : SettingsScope) :
    ((sc.fields c).map Field.name).Nodup := by
  cases sc with
  | global => exact nodup_globalFields c
  | tenant _ => exact nodup_tenantFields c
  | user _ => exact nodup_userFields c

theorem settled_fields (hc : c.Exact) (sc : SettingsScope) : ∀ f ∈ sc.fields c, f.Settled := by
  cases sc with
  | global => exact settled_globalFields hc
  | tenant _ => exact settled_tenantFields hc
  | user _ => exact settled_userFields hc

end SettingsScope

/-- What a write leaves stored of each field. -/
theorem lookup_stored_write {rows : SettingsTable} (hrows : rows.Distinct)
    (hv : validate (sc.fields c) d = .ok validated) (hf : f ∈ sc.fields c) :
    ∃ j, f.value d = .ok j ∧
      (sc.stored (rows.storeIn sc.name sc.scope_id validated)).lookup f.name = some j := by
  have hn := sc.nodup_fields c
  obtain ⟨j, hj, hlookup⟩ := lookup_validate hn hv hf
  refine ⟨j, hj, ?_⟩
  rw [SettingsScope.stored, SettingsTable.lookup_stored _ (hrows.storeIn _ _ _ _),
    SettingsTable.get_storeIn _ _ _ ((validate_ok hv).1 ▸ hn), hlookup]
  rfl

/-- What one write preserves. -/
theorem UpdateInv.write (hc : c.Exact) (h : UpdateInv c sc rows₀ s)
    (hdata : (data.map Prod.fst).Nodup)
    (hv : validate (sc.fields c) (current.merge (sc.incoming data)) = .ok validated)
    (hfresh : ∀ f ∈ sc.fields c, (sc.incoming data).lookup f.name = none →
      f.value current = f.value (sc.stored s.rows)) {others : List Update} (hsub : ∀ u ∈ others, u ∈ s.running) :
    UpdateInv c sc rows₀
      ⟨s.rows.storeIn sc.name sc.scope_id validated, others, s.finished ++ [data]⟩ where
  distinct := h.distinct.storeIn _ _ _ _
  running u hu := h.running u (hsub u hu)
  patched := by
    intro f hf j hj
    obtain ⟨x, hx, hlookup⟩ := lookup_stored_write h.distinct hv hf
    have hmerged := JsonDict.lookup_merge (d := current) (sc.incoming_nodup hdata) f.name
    rw [SettingsScope.latestPatch_concat] at hj
    cases hpatch : (sc.incoming data).lookup f.name with
    | some j' =>
      rw [hpatch] at hj hmerged
      cases hj
      rw [Field.value_of_lookup hmerged, mapError_eq_ok] at hx
      exact ⟨x, hx, hlookup⟩
    | none =>
      rw [hpatch] at hj hmerged
      obtain ⟨v, hcheck, hstored⟩ := h.patched f hf j hj
      rw [Field.value_congr hmerged, hfresh f hf hpatch, Field.value_of_lookup hstored,
        (sc.settled_fields hc f hf).stable j v hcheck] at hx
      cases hx
      exact ⟨_, hcheck, hlookup⟩
  old := by
    intro f hf hnone
    obtain ⟨x, hx, hlookup⟩ := lookup_stored_write h.distinct hv hf
    have hmerged := JsonDict.lookup_merge (d := current) (sc.incoming_nodup hdata) f.name
    rw [SettingsScope.latestPatch_concat] at hnone
    obtain ⟨hpatch, hlatest⟩ := Option.or_eq_none_iff.1 hnone
    rw [hpatch] at hmerged
    change f.value (sc.stored (s.rows.storeIn sc.name sc.scope_id validated)) = _
    rw [(sc.settled_fields hc f hf).value_of_lookup hx hlookup, ← hx, Field.value_congr hmerged,
      hfresh f hf hpatch, h.old f hf hlatest]

theorem UpdateInv.advance (h : UpdateInv c sc rows₀ s) {others : List Update}
    (hothers : ∀ u ∈ others, (u.data.map Prod.fst).Nodup) :
    UpdateInv c sc rows₀ { s with running := others } :=
  ⟨h.distinct, hothers, h.patched, h.old⟩

theorem UpdateStep.keeps (hc : c.Exact) (hstep : UpdateStep c sc s e s')
    (hfresh : WritesFresh c sc s e) (h : UpdateInv c sc rows₀ s) : UpdateInv c sc rows₀ s' := by
  have hreplace : ∀ {before after : List Update} {u u' : Update},
      s.running = before ++ u :: after → u'.data = u.data →
        ∀ x ∈ before ++ u' :: after, (x.data.map Prod.fst).Nodup := by
    intro before after u u' hrun hdata x hx
    have hold := h.running
    rw [hrun] at hold
    rcases List.mem_append.1 hx with hx | hx
    · exact hold x (List.mem_append_left _ hx)
    · rcases List.mem_cons.1 hx with rfl | hx
      · rw [hdata]
        exact hold u (List.mem_append_right _ List.mem_cons_self)
      · exact hold x (List.mem_append_right _ (List.mem_cons_of_mem _ hx))
  have herase : ∀ {before after : List Update} {u : Update}, s.running = before ++ u :: after →
      ∀ x ∈ before ++ after, x ∈ s.running := by
    intro before after u hrun x hx
    rw [hrun]
    exact (List.mem_append.1 hx).elim (List.mem_append_left _)
      fun hx => List.mem_append_right _ (List.mem_cons_of_mem _ hx)
  cases hstep with
  | start hdata =>
    apply h.advance
    intro u hu
    rcases List.mem_append.1 hu with hu | hu
    · exact h.running u hu
    · rw [List.mem_singleton.1 hu]
      exact hdata
  | read hrun _ => exact h.advance (hreplace hrun rfl)
  | readPassword hrun => exact h.advance (hreplace hrun rfl)
  | write hrun hv =>
    have hdata := h.running _ (hrun ▸ List.mem_append_right _ List.mem_cons_self)
    exact h.write hc hdata hv hfresh (herase hrun)
  | failRead hrun _ => exact h.advance fun u hu => h.running u (herase hrun u hu)
  | failWrite hrun _ => exact h.advance fun u hu => h.running u (herase hrun u hu)

theorem UpdateInv.kept (h : UpdateInv c sc rows₀ s)
    (hdisjoint : s.finished.Pairwise fun d e => (d.map Prod.fst).Disjoint (e.map Prod.fst)) :
    UpdatesKept c sc rows₀ s := by
  intro f hf
  constructor
  · intro data hdata j hj
    exact h.patched f hf j (SettingsScope.latestPatch_of_disjoint hdisjoint hdata hj)
  · intro hnone
    exact h.old f hf (SettingsScope.latestPatch_eq_none hnone)

theorem updates_kept (hc : c.Exact) (hrows : rows₀.Distinct)
    (hrun : Run (Guarded (UpdateStep c sc) (WritesFresh c sc)) ⟨rows₀, [], []⟩ es s)
    (hdisjoint : s.finished.Pairwise fun d e => (d.map Prod.fst).Disjoint (e.map Prod.fst)) :
    UpdatesKept c sc rows₀ s := by
  have hinv : UpdateInv c sc rows₀ s := by
    apply hrun.invariant
    · exact ⟨hrows, nofun, nofun, fun _ _ _ => rfl⟩
    · exact fun hs hstep => hstep.1.keeps hc hstep.2 hs
  exact hinv.kept hdisjoint

/-- A call that runs alone is four such steps. -/
theorem saveGlobal_run (hdata : (data.map Prod.fst).Nodup)
    (h : rows₀.saveGlobal c data = .ok (settings, rows)) :
    ∃ es, Run (UpdateStep c .global) ⟨rows₀, [], []⟩ es ⟨rows, [], [data]⟩ := by
  rw [SettingsTable.saveGlobal] at h
  obtain ⟨current, hread, h⟩ := bind_eq_ok.1 h
  obtain ⟨validated, hv, h⟩ := bind_eq_ok.1 h
  cases h
  have hstart : UpdateStep c .global ⟨rows₀, [], []⟩ (.start data)
      ⟨rows₀, [⟨data, .reading⟩], []⟩ := .start hdata
  have hreads : UpdateStep c .global ⟨rows₀, [⟨data, .reading⟩], []⟩ (.advance [] _ [])
      ⟨rows₀, [⟨data, .password current⟩], []⟩ := .read rfl hread
  have hpassword : UpdateStep c .global ⟨rows₀, [⟨data, .password current⟩], []⟩ (.advance [] _ [])
      ⟨rows₀, [⟨data, .writing (current.set "smtp_password"
        ((rows₀.get "global" none "smtp_password").getD .null))⟩], []⟩ := .readPassword rfl
  have hwrites : UpdateStep c .global ⟨rows₀, [⟨data, .writing (current.set "smtp_password"
        ((rows₀.get "global" none "smtp_password").getD .null))⟩], []⟩ (.advance [] _ [])
      ⟨rows₀.storeAll validated, [], [data]⟩ := .write rfl hv
  exact ⟨_, (((Run.single hstart).snoc hreads).snoc hpassword).snoc hwrites⟩

end

/-! ## Two patches of a tenant's settings -/

def acmeScope : SettingsScope := .tenant "acme"

def emailPatch : JsonDict := [("notification_email", .str "ops@acme.test")]

def customPatch : JsonDict := [("custom_field_1", .str "blue")]

/-- What a call writes that found nothing stored. -/
def patched (patch : JsonDict) : JsonDict := tenantDefaults.merge patch

def afterPatch (patch : JsonDict) (rows : SettingsTable) : SettingsTable :=
  rows.storeIn "tenant" (some "acme") (patched patch)

theorem email_patch_kept :
    UpdatesKept .strict acmeScope [] ⟨afterPatch emailPatch [], [], [emailPatch]⟩ := by
  have hfresh : WritesFresh .strict acmeScope ⟨[], [⟨emailPatch, .writing tenantDefaults⟩], []⟩
      (.advance [] ⟨emailPatch, .writing tenantDefaults⟩ []) := by
    intro f hf hnone
    clear hnone
    revert f
    simp only [acmeScope, SettingsScope.fields, tenantFields, List.forall_mem_cons]
    refine ⟨rfl, rfl, rfl, rfl, rfl, ?_⟩
    intro f hf
    cases hf
  have hstart : UpdateStep .strict acmeScope ⟨[], [], []⟩ (.start emailPatch)
      ⟨[], [⟨emailPatch, .reading⟩], []⟩ := .start (by decide)
  have hreads : UpdateStep .strict acmeScope ⟨[], [⟨emailPatch, .reading⟩], []⟩ (.advance [] _ [])
      ⟨[], [⟨emailPatch, .writing tenantDefaults⟩], []⟩ := .read rfl rfl
  have hwrites : UpdateStep .strict acmeScope ⟨[], [⟨emailPatch, .writing tenantDefaults⟩], []⟩
      (.advance [] _ []) ⟨afterPatch emailPatch [], [], [emailPatch]⟩ := .write rfl rfl
  exact updates_kept Coercions.strict_exact List.nodup_nil
    (((Run.single ⟨hstart, trivial⟩).snoc ⟨hreads, trivial⟩).snoc ⟨hwrites, hfresh⟩)
    (List.pairwise_singleton _ _)

/-- Two calls read before either writes. -/
theorem patch_lost : ¬ ∀ es s,
    Run (UpdateStep .strict acmeScope) ⟨[], [], []⟩ es s → s.running = [] →
      s.finished.Pairwise (fun d e => (d.map Prod.fst).Disjoint (e.map Prod.fst)) →
        UpdatesKept .strict acmeScope [] s := by
  intro h
  have hstart : UpdateStep .strict acmeScope ⟨[], [], []⟩ (.start emailPatch)
      ⟨[], [⟨emailPatch, .reading⟩], []⟩ := .start (by decide)
  have hstart' : UpdateStep .strict acmeScope ⟨[], [⟨emailPatch, .reading⟩], []⟩
      (.start customPatch) ⟨[], [⟨emailPatch, .reading⟩, ⟨customPatch, .reading⟩], []⟩ :=
    .start (by decide)
  have hreads : UpdateStep .strict acmeScope
      ⟨[], [⟨emailPatch, .reading⟩, ⟨customPatch, .reading⟩], []⟩ (.advance [] _ _)
      ⟨[], [⟨emailPatch, .writing tenantDefaults⟩, ⟨customPatch, .reading⟩], []⟩ := .read rfl rfl
  have hreads' : UpdateStep .strict acmeScope
      ⟨[], [⟨emailPatch, .writing tenantDefaults⟩, ⟨customPatch, .reading⟩], []⟩
      (.advance [⟨emailPatch, .writing tenantDefaults⟩] _ [])
      ⟨[], [⟨emailPatch, .writing tenantDefaults⟩, ⟨customPatch, .writing tenantDefaults⟩], []⟩ :=
    .read rfl rfl
  have hwrites : UpdateStep .strict acmeScope
      ⟨[], [⟨emailPatch, .writing tenantDefaults⟩, ⟨customPatch, .writing tenantDefaults⟩], []⟩
      (.advance [] _ _)
      ⟨afterPatch emailPatch [], [⟨customPatch, .writing tenantDefaults⟩], [emailPatch]⟩ :=
    .write rfl rfl
  have hwrites' : UpdateStep .strict acmeScope
      ⟨afterPatch emailPatch [], [⟨customPatch, .writing tenantDefaults⟩], [emailPatch]⟩
      (.advance [] _ [])
      ⟨afterPatch customPatch (afterPatch emailPatch []), [], [emailPatch, customPatch]⟩ :=
    .write rfl rfl
  have hkept := h _ _ ((((((Run.single hstart).snoc hstart').snoc hreads).snoc hreads').snoc
    hwrites).snoc hwrites') rfl (by simp [emailPatch, customPatch])
  have hfield : fieldOf tenantDefaults "notification_email" (orNull str) ∈
      acmeScope.fields .strict :=
    List.mem_cons_of_mem _ (List.mem_cons_of_mem _ List.mem_cons_self)
  obtain ⟨v, hv, hstored⟩ := (hkept _ hfield).1 emailPatch List.mem_cons_self _ rfl
  cases hv
  have hnull : some Json.null = some (.str "ops@acme.test") := hstored
  cases hnull

end ScottyCore
