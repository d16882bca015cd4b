import Mathlib.Data.List.Chain
import Mathlib.Data.List.TakeWhile
import ScottyCore.Auth.TenantKeys
import ScottyCore.Backup.Bundle
import ScottyCore.Files.Confinement

namespace Python
set_option autoImplicit true

/-! ## Runs of a character -/

variable {p : Char → Bool} {new c : Char} {cs : List Char}

theorem replaceRuns_eq_self_of_none (h : ∀ c ∈ cs, p c = false) : replaceRuns p new cs = cs := by
  induction cs with
  | nil => rfl
  | cons d cs ih =>
    rw [replaceRuns, if_neg (by rw [h d List.mem_cons_self]; exact Bool.false_ne_true),
      ih fun c hc => h c (List.mem_cons_of_mem d hc)]

/-- No two neighbours are of the run. -/
def Apart (p : Char → Bool) (cs : List Char) : Prop :=
  cs.IsChain fun a b => ¬ (p a = true ∧ p b = true)

theorem head_replaceRuns (h : (replaceRuns p new cs).head?.any p = true) :
    cs.head?.any p = true := by
  cases cs with
  | nil => exact h
  | cons d cs =>
    cases hd : p d with
    | true => exact hd
    | false =>
      rw [replaceRuns, hd, if_neg Bool.false_ne_true] at h
      exact h

theorem apart_replaceRuns (p : Char → Bool) (new : Char) (cs : List Char) :
    Apart p (replaceRuns p new cs) := by
  have hcons : ∀ {a : Char} {l : List Char}, Apart p l →
      (p a = true → l.head?.any p = false) → Apart p (a :: l) := by
    intro a l hl ha
    apply hl.cons
    rintro b hb ⟨hpa, hpb⟩
    have hnone := ha hpa
    rw [Option.mem_def.1 hb] at hnone
    have hfalse : p b = false := hnone
    rw [hpb] at hfalse
    cases hfalse
  induction cs with
  | nil => exact .nil
  | cons d cs ih =>
    rw [replaceRuns]
    split
    · split
      · exact ih
      · rename_i hhead
        apply hcons ih
        intro _
        apply Bool.eq_false_of_not_eq_true
        exact fun h => hhead (head_replaceRuns h)
    · rename_i hd
      exact hcons ih fun h => (hd h).elim

theorem replaceRuns_eq_self (hp : ∀ c, p c = true → c = new) (h : Apart p cs) :
    replaceRuns p new cs = cs := by
  induction cs with
  | nil => rfl
  | cons d cs ih =>
    rw [replaceRuns, ih h.tail]
    split
    · rename_i hd
      have hhead : cs.head?.any p = false := by
        cases cs with
        | nil => rfl
        | cons e cs =>
          apply Bool.eq_false_of_not_eq_true
          exact fun he => h.rel_head? rfl ⟨hd, he⟩
      rw [hhead, if_neg Bool.false_ne_true, hp d hd]
    · rfl

theorem mem_replaceRuns_of_mem (new : Char) (h : c ∈ cs) (hc : p c = false) :
    c ∈ replaceRuns p new cs := by
  induction cs with
  | nil => cases h
  | cons d cs ih =>
    rw [replaceRuns]
    rcases List.mem_cons.1 h with rfl | h
    · rw [hc, if_neg Bool.false_ne_true]
      exact List.mem_cons_self
    · split
      · split
        · exact ih h
        · exact List.mem_cons_of_mem _ (ih h)
      · exact List.mem_cons_of_mem _ (ih h)

end Python

namespace ScottyCore
open Python TransitionSystem
set_option autoImplicit true

/-! ## The uploads directories of both services -/

/-- What a text of a path is read against: the working directory, and what `~` and `~user` name. -/
structure Host where
  cwd : List String
  home : String → List String

/-- `Path(path).resolve()` -/
def Host.resolve (host : Host) (path : String) : List String :=
  resolveParts (targetParts host.cwd path)

/-- `Path(path).expanduser().resolve()` -/
def Host.resolveExpanded (host : Host) (path : String) : List String :=
  match (splitPath path).filter fun p => p ≠ "" ∧ p ≠ "." with
  | first :: rest =>
    if path.toList.head? ≠ some '/' ∧ first.toList.head? = some '~' then
      resolveParts (host.home first ++ rest)
    else host.resolve path
  | [] => host.resolve path

namespace FilesContributor

/-- `_tenant_slug_for` -/
def tenantSlugFor (scope : BackupScope) (tenant_id : Option Uuid) (t : TenantTable) :
    Option String :=
  match scope, tenant_id with
  | .tenant, some id => (t.find id).map Tenant.slug
  | _, _ => none

/-- `_walk_root` -/
def walkRoot (base : List String) (scope : BackupScope) (tenant_slug : Option String) :
    Option (List String) :=
  match scope, tenant_slug with
  | .platform, _ => some base
  | .tenant, none | .tenant, some "" => none
  | .tenant, some slug => some (targetParts base slug)

end FilesContributor

/-- The name that a call gives a tenant. -/
def TenantAction.name : TenantAction → Option String
  | .create data _ => some data.name
  | .update _ data => data.name.join
  | .rotate .. => none

/-- `Field(min_length=1, max_length=200)` -/
def nameAccepted (name : String) : Bool := 1 ≤ name.length ∧ name.length ≤ 200

/-- A slug names one directory, the same for both services. -/
structure SlugNamesDir (u : Unicode) (host : Host) (uploads_base_dir : String) (t : TenantTable)
    (tenant : Tenant) : Prop where
  nonempty : tenant.slug ≠ ""
  fixed : slugify u tenant.slug = tenant.slug
  sanitised : secureFilename u tenant.slug = tenant.slug
  roots : FilesService.safeResolve u (host.resolve uploads_base_dir) tenant.slug "" =
    FilesContributor.walkRoot (host.resolveExpanded uploads_base_dir) .tenant
      (FilesContributor.tenantSlugFor .tenant (some tenant.id) t)
  apart : ∀ other ∈ t.rows, other.slug ≠ tenant.slug → ∀ root,
    FilesService.safeResolve u (host.resolve uploads_base_dir) other.slug "" = some root →
      FilesService.safeResolve u (host.resolve uploads_base_dir) tenant.slug "" ≠ some root

/-- `str.lower` leaves a text of lowered characters as it is. -/
def LowersOnce (u : Unicode) : Prop :=
  ∀ s : String, (∀ c ∈ s.toList, c = '-' ∨ ∃ t, c ∈ (u.lower t).toList) → u.lower s = s

section
variable {u : Unicode} {host : Host} {t t' : TenantTable} {tenant : Tenant} {name dir : String}

/-! ## The slug of a name -/

/-- What a name consists of besides what a slug drops or replaces. -/
def isSlugChar (u : Unicode) (c : Char) : Bool := u.isWord c && c != '_'

theorem isWord_dash (u : Unicode) : u.isWord '-' = false := by
  rw [u.isWord_ascii (by decide)]
  decide

theorem ne_dash_of_slugChar (h : isSlugChar u c = true) : (c == '-') = false := by
  rw [beq_eq_false_iff_ne]
  rintro rfl
  rw [isSlugChar, isWord_dash] at h
  cases h

theorem mem_slugify (h : c ∈ (slugify u name).toList) :
    c = '-' ∨ c ∈ (u.lower name).toList ∧ isSlugChar u c = true := by
  rw [slugify, String.toList_ofList] at h
  rcases mem_replaceRuns ((isInfix_trim _ _).subset h) with rfl | ⟨hmem, -⟩
  · exact .inl rfl
  rcases mem_replaceRuns hmem with rfl | ⟨hmem, hspace⟩
  · exact .inl rfl
  obtain ⟨hlower, hkept⟩ := List.mem_filter.1 hmem
  rw [Bool.or_eq_false_iff, beq_eq_false_iff_ne] at hspace
  rw [hspace.1, Bool.or_false, Bool.or_eq_true, beq_iff_eq] at hkept
  rcases hkept with hword | hdash
  · have hstrip : c ∈ (u.lower name).toList := by
      rw [strip, String.toList_ofList] at hlower
      exact (isInfix_trim _ _).subset hlower
    refine .inr ⟨hstrip, ?_⟩
    rw [isSlugChar, hword, Bool.true_and, bne_iff_ne]
    exact hspace.2
  · exact .inl hdash

theorem mem_slugify_of_slugChar (h : c ∈ (u.lower name).toList) (hc : isSlugChar u c = true) :
    c ∈ (slugify u name).toList := by
  have hdash := ne_dash_of_slugChar hc
  rw [isSlugChar, Bool.and_eq_true, bne_iff_ne] at hc
  have hspace := u.isSpace_of_isWord hc.1
  have hplain : (isSpace c || c == '_') = false := by
    rw [hspace, Bool.false_or, beq_eq_false_iff_ne]
    exact hc.2
  have hkept : c ∈ (strip (u.lower name)).toList.filter fun c =>
      u.isWord c || isSpace c || c == '-' := by
    rw [List.mem_filter, hc.1]
    refine ⟨?_, rfl⟩
    rw [strip, String.toList_ofList]
    exact mem_trim h hspace
  rw [slugify, String.toList_ofList]
  have hrun := mem_replaceRuns_of_mem (p := fun c => isSpace c || c == '_') '-' hkept hplain
  exact mem_trim (mem_replaceRuns_of_mem (p := fun c => c == '-') '-' hrun hdash) hdash

theorem slugify_ne_empty_iff (u : Unicode) (name : String) :
    slugify u name ≠ "" ↔ ∃ c ∈ (u.lower name).toList, isSlugChar u c = true := by
  constructor
  · intro h
    cases hslug : (slugify u name).toList with
    | nil =>
      have hempty : slugify u name = "" := String.toList_inj.1 hslug
      exact (h hempty).elim
    | cons c cs =>
      have hhead : (c == '-') = false := by
        apply head_trim (fun c => c == '-') _
        rw [slugify, String.toList_ofList] at hslug
        rw [hslug]
        rfl
      have hmem : c ∈ (slugify u name).toList := hslug ▸ List.mem_cons_self
      rcases mem_slugify hmem with rfl | hkept
      · cases hhead
      · exact ⟨c, hkept⟩
  · rintro ⟨c, hmem, hc⟩ hempty
    have hslug := mem_slugify_of_slugChar hmem hc
    rw [hempty, String.toList_empty] at hslug
    cases hslug

/-- A slug has no runs of dashes, and none at its ends. -/
theorem slugify_slugify (hu : LowersOnce u) (name : String) :
    slugify u (slugify u name) = slugify u name := by
  have hlower : u.lower (slugify u name) = slugify u name := by
    apply hu
    intro c hc
    rcases mem_slugify hc with hdash | ⟨hmem, -⟩
    · exact .inl hdash
    · exact .inr ⟨name, hmem⟩
  have hkept : ∀ c ∈ (slugify u name).toList,
      (u.isWord c || isSpace c || c == '-') = true := by
    intro c hc
    rcases chars_slugify hc with hword | rfl
    · rw [hword]
      rfl
    · simp
  have hplain : ∀ c ∈ (slugify u name).toList, (isSpace c || c == '_') = false := by
    intro c hc
    rw [isSpace_of_slug hc, Bool.false_or, beq_eq_false_iff_ne]
    rcases mem_slugify hc with rfl | ⟨-, hslug⟩
    · decide
    · rw [isSlugChar, Bool.and_eq_true, bne_iff_ne] at hslug
      exact hslug.2
  have hparts : ∃ cs, (slugify u name).toList =
      Uuid.trim (fun c => c == '-') (replaceRuns (fun c => c == '-') '-' cs) :=
    ⟨_, String.toList_ofList⟩
  obtain ⟨cs, hcs⟩ := hparts
  have hapart : Apart (fun c => c == '-') (slugify u name).toList := by
    rw [hcs]
    exact List.IsChain.infix (apart_replaceRuns _ _ cs) (isInfix_trim _ _)
  have hruns : replaceRuns (fun c => c == '-') '-' (slugify u name).toList =
      (slugify u name).toList :=
    replaceRuns_eq_self (fun c hc => eq_of_beq hc) hapart
  have htrim : Uuid.trim (fun c => c == '-') (slugify u name).toList = (slugify u name).toList := by
    apply trim_eq_self
    · rw [hcs]
      exact head_trim _ _
    · rw [hcs]
      exact last_trim _ _
  have hslug : slugify u (slugify u name) = String.ofList (Uuid.trim (fun c => c == '-')
      (replaceRuns (fun c => c == '-') '-' (replaceRuns (fun c => isSpace c || c == '_') '-'
        ((strip (u.lower (slugify u name))).toList.filter fun c =>
          u.isWord c || isSpace c || c == '-')))) := rfl
  rw [hslug, hlower, strip_eq_self fun c hc => isSpace_of_slug hc, List.filter_eq_self.2 hkept,
    replaceRuns_eq_self_of_none hplain, hruns, htrim, String.ofList_toList]

/-! ## The directory of a slug -/

theorem safeResolve_of_no_slug (base : List String) :
    FilesService.safeResolve u base "" "" = none := by
  have hsecure : secureFilename u "" = "" := rfl
  rw [FilesService.safeResolve, hsecure, if_pos rfl]

theorem walkRoot_slug (base : List String) (hne : slugify u name ≠ "") :
    FilesContributor.walkRoot base .tenant (some (slugify u name)) =
      some (base ++ [slugify u name]) := by
  obtain ⟨⟨hslash, -⟩, -, hdot, -⟩ := isName_slugify hne
  have hhead : (slugify u name).toList.head? ≠ some '/' := by
    intro hhead
    exact hslash (List.mem_of_mem_head? hhead)
  have hparts : ((splitPath (slugify u name)).filter fun p => p ≠ "" ∧ p ≠ ".") =
      [slugify u name] := by
    rw [splitPath_of_part hslash]
    exact List.filter_cons_of_pos (decide_eq_true ⟨hne, hdot⟩)
  rw [FilesContributor.walkRoot]
  · rw [targetParts, hparts, if_neg hhead]
  · exact hne

/-- The slug of a row that a call writes: a new one of its name, or the old one. -/
theorem TenantWritten.slug_cases (h : TenantWritten u auth t action tenant) :
    (∃ name, tenant.slug = slugify u name) ∨ ∃ old ∈ t.rows, tenant.slug = old.slug := by
  cases h with
  | @create _ data => exact .inl ⟨data.name, rfl⟩
  | @update old data hmem =>
    cases hslug : TenantsService.slugUpdate u data with
    | none => exact .inr ⟨old, hmem, by simp only [Option.getD_none]⟩
    | some slug =>
      obtain ⟨name, -, rfl⟩ := Option.map_eq_some_iff.1 hslug
      exact .inl ⟨name, by simp only [Option.getD_some]⟩
  | rotate hmem => exact .inr ⟨_, hmem, rfl⟩

/-- Every stored slug was made of a name. -/
def SlugsMade (u : Unicode) (t : TenantTable) : Prop :=
  ∀ tenant ∈ t.rows, ∃ name, tenant.slug = slugify u name

theorem SlugsMade.perform (h : SlugsMade u t)
    (hdone : TenantsService.perform u auth action t = .ok (tenant, t')) : SlugsMade u t' := by
  obtain ⟨hwritten, rfl⟩ := tenantWritten_of_perform hdone
  intro other hother
  rcases KeyedTable.mem_upsert_iff.1 hother with rfl | ⟨hmem, -⟩
  · rcases hwritten.slug_cases with hnew | ⟨old, hold, hsame⟩
    · exact hnew
    · rw [hsame]
      exact h old hold
  · exact h other hmem

theorem slugsMade_run (hrun : Run (TenantsService.Step u auth) ∅ as t) : SlugsMade u t := by
  induction hrun with
  | nil =>
    intro tenant htenant
    cases htenant
  | snoc _ hstep ih =>
    cases hstep with
    | failed => exact ih
    | done hdone => exact ih.perform hdone

/-- The slug of a tenant that a call names. -/
theorem TenantWritten.slug_eq (h : TenantWritten u auth t action tenant)
    (hname : action.name = some name) (hne : name ≠ "") : tenant.slug = slugify u name := by
  cases h with
  | create hfresh =>
    cases hname
    rfl
  | @update old data hmem =>
    have hgiven : data.name.join = some name := hname
    have hslug : TenantsService.slugUpdate u data = some (slugify u name) := by
      rw [TenantsService.slugUpdate, hgiven, Option.filter_some, if_pos (decide_eq_true hne)]
      rfl
    simp only [hslug, Option.getD_some]
  | rotate hmem => cases hname

theorem slug_names_dir_iff (hu : LowersOnce u) (host : Host) (dir : String)
    (hrun : Run (TenantsService.Step u auth) ∅ as t)
    (hdone : TenantsService.perform u auth action t = .ok (tenant, t'))
    (hname : action.name = some name) (haccepted : nameAccepted name = true) :
    SlugNamesDir u host dir t' tenant ↔
      (∃ c ∈ (u.lower name).toList, isSlugChar u c = true) ∧
        host.resolve dir = host.resolveExpanded dir := by
  obtain ⟨hwritten, hafter⟩ := tenantWritten_of_perform hdone
  have hne : name ≠ "" := by
    rintro rfl
    cases haccepted
  have hslug := hwritten.slug_eq hname hne
  have hfind : FilesContributor.tenantSlugFor .tenant (some tenant.id) t' =
      some (slugify u name) := by
    rw [FilesContributor.tenantSlugFor, hafter, KeyedTable.find_upsert_self, ← hslug]
    rfl
  rw [← slugify_ne_empty_iff]
  constructor
  · intro h
    have hfull : slugify u name ≠ "" := hslug ▸ h.nonempty
    have hroots := h.roots
    rw [hslug, hfind, FilesService.safeResolve_empty _ (isSlug_slugify hfull), walkRoot_slug _ hfull, Option.some.injEq] at hroots
    exact ⟨hfull, List.append_cancel_right hroots⟩
  · rintro ⟨hfull, hbase⟩
    constructor
    · rw [hslug]
      exact hfull
    · rw [hslug]
      exact slugify_slugify hu name
    · rw [hslug]
      exact secureFilename_slugify u name
    · rw [hslug, hfind, FilesService.safeResolve_empty _ (isSlug_slugify hfull), walkRoot_slug _ hfull, hbase]
    · intro other hother hdiffer root hroot hsame
      obtain ⟨name', hmade⟩ := (slugsMade_run hrun).perform hdone other hother
      rw [hmade] at hroot hdiffer
      rw [hslug] at hsame hdiffer
      by_cases hempty : slugify u name' = ""
      · rw [hempty, safeResolve_of_no_slug] at hroot
        cases hroot
      · rw [FilesService.safeResolve_empty _ (isSlug_slugify hempty)] at hroot
        rw [FilesService.safeResolve_empty _ (isSlug_slugify hfull), ← hroot, Option.some.injEq] at hsame
        exact hdiffer (List.singleton_inj.1 (List.append_cancel_left hsame)).symm

end

/-! ## Example -/

theorem lowersOnce_ascii : LowersOnce asciiTables := by
  intro s h
  have hsame : ∀ c ∈ s.toList, c.toLower = c := by
    intro c hc
    rcases h c hc with rfl | ⟨t, ht⟩
    · decide
    · rw [asciiTables, String.toList_ofList] at ht
      obtain ⟨d, -, rfl⟩ := List.mem_map.1 ht
      exact toLower_toLower d
  have hmap : s.toList.map Char.toLower = s.toList := by
    rw [List.map_congr_left hsame, List.map_id']
  change String.ofList (s.toList.map Char.toLower) = s
  rw [hmap, String.ofList_toList]

def sampleHost : Host where
  cwd := ["srv"]
  home _ := ["root"]

theorem created_row (name slug : String) (h : slugify asciiTables name = slug) :
    TenantsService.perform asciiTables AuthService.sample (.create ⟨name⟩ ⟨1⟩) ∅ =
      .ok ({ id := ⟨1⟩, name, slug }, (∅ : TenantTable).upsert { id := ⟨1⟩, name, slug }) := by
  rw [TenantsService.perform, TenantsService.create, h]
  rfl

theorem slug_names_dir_acme : ∃ t tenant,
    TenantsService.perform asciiTables AuthService.sample (.create ⟨"Acme"⟩ ⟨1⟩) ∅ =
      .ok (tenant, t) ∧ SlugNamesDir asciiTables sampleHost "uploads" t tenant := by
  have hslug : slugify asciiTables "Acme" = "acme" := by decide +kernel
  refine ⟨_, _, created_row "Acme" "acme" hslug, ?_⟩
  apply (slug_names_dir_iff lowersOnce_ascii sampleHost "uploads" .nil
    (created_row "Acme" "acme" hslug) rfl (by decide)).2
  refine ⟨⟨'a', ?_, by decide⟩, by decide⟩
  decide +kernel

/-- A name without letters and digits. -/
theorem bangs_name_no_dir : ¬ ∀ name t tenant t', nameAccepted name = true →
    Run (TenantsService.Step asciiTables AuthService.sample) ∅ [] t →
    TenantsService.perform asciiTables AuthService.sample (.create ⟨name⟩ ⟨1⟩) t =
      .ok (tenant, t') → SlugNamesDir asciiTables sampleHost "uploads" t' tenant := by
  intro h
  have hslug : slugify asciiTables "!!!" = "" := by decide +kernel
  exact (h "!!!" ∅ _ _ (by decide) .nil (created_row "!!!" "" hslug)).nonempty rfl

end ScottyCore
