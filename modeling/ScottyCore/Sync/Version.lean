import ScottyCore.Lib.Exchange
import ScottyCore.Sync.Propagation

namespace ScottyCore
open Python MeshSyncEngine Exchange
set_option autoImplicit true

variable {b b' : Backend} {m : Model}

/-! ## Versions, whatever the database -/

theorem restampCell_restampCell (b b' : Backend) (v : Val) :
    restampCell b' (restampCell b v) = restampCell b' v := by
  cases v <;> rfl

/-- Two nodes hold the same version of a row. -/
def SameVersion (x : Row b m) (y : Row b' m) : Prop := x.on .sqlite = y.on .sqlite

instance (x : Row b m) (y : Row b' m) : Decidable (SameVersion x y) :=
  inferInstanceAs (Decidable (_ = _))

/-- A row as a version: its cells without offsets, `updated_at` apart. -/
def version (r : Row b m) : Version (List Val) Val where
  content := (m.columns.filter fun c => !c.onupdate).map fun c =>
    restampCell .sqlite (r.get c.name)
  stamp := restampCell .sqlite (r.get "updated_at")

theorem version_eq_iff (ht : m.timestamped = true) (x : Row b m) (y : Row b' m) :
    version x = version y ↔ SameVersion x y := by
  constructor
  · intro h
    have hcontent := List.map_inj_left.1 (congrArg Version.content h)
    have hstamp := congrArg Version.stamp h
    apply Row.ext
    intro c hc
    rw [Row.get_on _ _ hc, Row.get_on _ _ hc]
    by_cases ho : c.onupdate = true
    · rw [(Model.onupdate_iff hc).1 ho]
      exact hstamp
    · exact hcontent c (List.mem_filter.2 ⟨hc, by simpa using ho⟩)
  · intro h
    have hcell : ∀ c ∈ m.columns,
        restampCell .sqlite (x.get c.name) = restampCell .sqlite (y.get c.name) := by
      intro c hc
      have hget := congrArg (fun r : Row .sqlite m => r.get c.name) h
      rwa [Row.get_on _ _ hc, Row.get_on _ _ hc] at hget
    have hcontent : (version x).content = (version y).content :=
      List.map_inj_left.2 fun c hc => hcell c (List.mem_filter.1 hc).1
    have hstamp : (version x).stamp = (version y).stamp := hcell _ (Model.updated_at_mem ht)
    calc version x = ⟨(version x).content, (version x).stamp⟩ := rfl
      _ = ⟨(version y).content, (version y).stamp⟩ := by rw [hcontent, hstamp]

theorem sameVersion_on (v : Row b m) (b' : Backend) : SameVersion (v.on b') v := by
  apply Row.ext
  intro c hc
  rw [Row.get_on _ _ hc, Row.get_on _ _ hc, Row.get_on _ _ hc, restampCell_restampCell]

theorem version_on (ht : m.timestamped = true) (v : Row b m) (b' : Backend) :
    version (v.on b') = version v :=
  (version_eq_iff ht _ _).2 (sameVersion_on v b')

theorem version_touch (ht : m.timestamped = true)
    (now : { d : DateTime // b.native d = true }) (r : Row b m) :
    version (r.touch now) = ⟨(version r).content, restampCell .sqlite (.datetime now)⟩ := by
  have hcontent : (version (r.touch now)).content = (version r).content := by
    apply List.map_inj_left.2
    intro c hc
    obtain ⟨hc, ho⟩ := List.mem_filter.1 hc
    rw [Row.get_touch _ _ hc, if_neg (by simpa using ho)]
  have hstamp : (version (r.touch now)).stamp = restampCell .sqlite (.datetime now) := by
    have hget := r.get_touch now (Model.updated_at_mem ht)
    change (r.touch now).get "updated_at" = .datetime now at hget
    change restampCell .sqlite ((r.touch now).get "updated_at") = _
    rw [hget]
  calc version (r.touch now) = ⟨(version (r.touch now)).content, (version (r.touch now)).stamp⟩ :=
        rfl
    _ = _ := by rw [hcontent, hstamp]

theorem eq_of_sameVersion {x y : Row b m} (h : SameVersion x y) : x = y := by
  apply Row.ext
  intro c hc
  have hget := congrArg (fun r : Row .sqlite m => r.get c.name) h
  change (x.on .sqlite).get c.name = (y.on .sqlite).get c.name at hget
  rw [Row.get_on _ _ hc, Row.get_on _ _ hc] at hget
  calc x.get c.name = restampCell b (x.get c.name) := (restampCell_of_holds (x.lookup hc).2).symm
    _ = restampCell b (restampCell .sqlite (x.get c.name)) := (restampCell_restampCell ..).symm
    _ = restampCell b (restampCell .sqlite (y.get c.name)) := by rw [hget]
    _ = restampCell b (y.get c.name) := restampCell_restampCell ..
    _ = y.get c.name := restampCell_of_holds (y.lookup hc).2

/-! ## Merging twice -/

theorem stamp_eq_of_tie {v : Row b' m} {l : Row b m} (ht : m.timestamped = true)
    (h : ¬ v.otherStamp l) : (version v).stamp = (version l).stamp := by
  have he : (v.get "updated_at").eq (l.get "updated_at") = true := by
    simpa [Row.otherStamp] using h
  have hv := (v.lookup (Model.updated_at_mem ht)).2
  have hl := (l.lookup (Model.updated_at_mem ht)).2
  have hr : restampCell b (v.get "updated_at") = l.get "updated_at" := restampCell_of_eq hv hl he
  change restampCell .sqlite (v.get "updated_at") = restampCell .sqlite (l.get "updated_at")
  rw [← hr, restampCell_restampCell]

/-- Two nodes whose timestamps compare equal are on one kind of database. -/
theorem backend_of_tie {v : Row b' m} {l : Row b m} (ht : m.timestamped = true)
    (h : ¬ v.otherStamp l) : b' = b := by
  obtain ⟨d, _, hv, hd⟩ := v.updatedAt_of_timestamped ht
  obtain ⟨e, _, hl, he⟩ := l.updatedAt_of_timestamped ht
  have heq : (Val.datetime d).eq (.datetime e) = true := by
    simpa [Row.otherStamp, hv, hl] using h
  exact (isNaive_eq_iff hd he).1 (of_decide_eq_true heq).1

theorem agrees_of_tie {v : Row b' m} {l : Row b m} (ht : m.timestamped = true)
    (h : ¬ v.otherStamp l) (hsame : SameVersion v l) : v.agrees l = true := by
  obtain rfl := backend_of_tie ht h
  obtain rfl := eq_of_sameVersion hsame
  exact Row.agrees_self _

theorem Row.over_of_tie {v : Row b' m} {l : Row b m} (h : ¬ v.otherStamp l)
    (ha : ¬ v.agrees l = true) : v.over now l = (v.on b).touch now :=
  if_pos ⟨by simpa [Row.otherStamp] using h, by simpa using ha⟩

theorem touch_of_tie (ht : m.timestamped = true) {v : Row b' m}
    (h : ¬ v.otherStamp ((v.on b).touch now)) : (v.on b).touch now = v.on b := by
  have hu := Model.updated_at_mem ht
  have hon : (v.on b).get "updated_at" = restampCell b (v.get "updated_at") := Row.get_on b v hu
  have htouch : ((v.on b).touch now).get "updated_at" = .datetime now := (v.on b).get_touch now hu
  have he : (v.get "updated_at").eq (((v.on b).touch now).get "updated_at") = true := by
    simpa [Row.otherStamp] using h
  have hres : restampCell b (v.get "updated_at") = ((v.on b).touch now).get "updated_at" :=
    restampCell_of_eq (v.lookup hu).2 (((v.on b).touch now).lookup hu).2 he
  apply Row.ext
  intro c hc
  by_cases hup : c.onupdate = true
  · rw [(Model.onupdate_iff hc).1 hup, hon, hres]
  · rw [Row.get_touch _ _ hc, if_neg hup]

theorem Row.over_over (ht : m.timestamped = true) (v : Row b' m) (l : Row b m) :
    v.over now (v.over now l) = v.on b := by
  by_cases ho : v.otherStamp l
  · rw [Row.over_of_ne ho, over_on]
  · by_cases ha : v.agrees l = true
    · rw [Row.over_of_agrees ha, over_on]
    · rw [Row.over_of_tie ho ha]
      by_cases ho' : v.otherStamp ((v.on b).touch now)
      · exact Row.over_of_ne ho'
      · rw [touch_of_tie ht ho', over_on]

/-! ## One version, payload by payload -/

/-- The database after a version was merged into a stored row, or clashed. -/
def mergedDb (db : Database b) (v : Row b' m) (l : Row b m) : Database b :=
  if v.agrees l ∨ Clashes db v then db else db.put (v.over db.now l)

theorem mergedDb_eq {db : Database b} {v : Row b' m} {l : Row b m} (hrow : Carries row v)
    (hl : db.find m v.id = some l) : mergedDb db v l = (mergeRow m row db).toOption.getD db := by
  rw [mergeRow_carried hrow hl, mergedDb]
  by_cases ha : v.agrees l = true
  · rw [if_pos (.inl ha), if_pos ha]
    rfl
  · rw [if_neg ha]
    by_cases hc : Clashes db v
    · rw [if_pos (.inr hc), if_pos ((violatesUnique_over db v l).2 hc)]
      rfl
    · rw [if_neg (not_or.2 ⟨ha, hc⟩), if_neg fun h => hc ((violatesUnique_over db v l).1 h)]
      rfl

theorem find_mergedDb {db : Database b} {v : Row b' m} {l : Row b m}
    (hl : db.find m v.id = some l) :
    (mergedDb db v l).find m v.id =
      some (if Clashes db v then l else v.over db.now l) := by
  unfold mergedDb
  by_cases hc : Clashes db v
  · rw [if_pos (.inr hc), if_pos hc, hl]
  · rw [if_neg hc]
    by_cases ha : v.agrees l = true
    · rw [if_pos (.inl ha), hl, Row.over_of_agrees ha, Row.on_of_agrees ha]
    · rw [if_neg (not_or.2 ⟨ha, hc⟩)]
      have hput := Database.find_put_self db (v.over db.now l)
      rwa [id_over] at hput

theorem now_mergedDb (db : Database b) (v : Row b' m) (l : Row b m) :
    (mergedDb db v l).now = db.now := by
  unfold mergedDb
  split <;> rfl

theorem clashes_mergedDb {db : Database b} {v : Row b' m} {l : Row b m} :
    Clashes (mergedDb db v l) v ↔ Clashes db v := by
  unfold mergedDb
  split
  · exact Iff.rfl
  · exact clashes_put (id_over v l)

end ScottyCore
