import ScottyCore.Lib.Run

/-! Histories of commits, of which a copy may run ahead of another one or fork from it. -/

namespace Commits
open TransitionSystem
set_option autoImplicit true

/-- A commit gives paths a new content, or none. -/
structure Commit (κ : Type u) (α : Type v) where
  id : Nat
  changes : List (κ × Option α)
  deriving DecidableEq

variable {κ : Type u} {α : Type v}
variable {h h' base pending since result : List (Commit κ α)} {k : κ}

def allChanges (h : List (Commit κ α)) : List (κ × Option α) := h.flatMap Commit.changes

/-- Some of the commits changes a path. -/
def Touches (h : List (Commit κ α)) (k : κ) : Prop := ∃ v, (k, v) ∈ allChanges h

theorem allChanges_append (h h' : List (Commit κ α)) :
    allChanges (h ++ h') = allChanges h ++ allChanges h' := List.flatMap_append

theorem touches_append : Touches (h ++ h') k ↔ Touches h k ∨ Touches h' k := by
  rw [Touches, allChanges_append]
  constructor
  · rintro ⟨v, hv⟩
    exact (List.mem_append.1 hv).imp (fun hv => ⟨v, hv⟩) fun hv => ⟨v, hv⟩
  · rintro (⟨v, hv⟩ | ⟨v, hv⟩)
    · exact ⟨v, List.mem_append_left _ hv⟩
    · exact ⟨v, List.mem_append_right _ hv⟩

theorem Touches.of_suffix (ht : Touches h k) (hs : h <:+ h') : Touches h' k := by
  obtain ⟨l, rfl⟩ := hs
  exact touches_append.2 (.inr ht)

/-- What a history holds beyond a part that it begins with. -/
theorem drop_suffix_drop (hb : base <+: h') (hh : h' <+: h) :
    h.drop h'.length <:+ h.drop base.length := by
  obtain ⟨l, rfl⟩ := hb
  obtain ⟨m, rfl⟩ := hh
  rw [List.drop_left, List.append_assoc, List.drop_left]
  exact List.suffix_append l m

theorem append_drop (hb : base <+: h) : base ++ h.drop base.length = h := by
  obtain ⟨l, rfl⟩ := hb
  rw [List.drop_left]

/-- Only some paths are changed. -/
def Within (own : κ → Prop) (h : List (Commit κ α)) : Prop := ∀ k, Touches h k → own k

/-- None of some paths is changed. -/
def Foreign (own : κ → Prop) (h : List (Commit κ α)) : Prop := ∀ k, own k → ¬ Touches h k

theorem not_touches_drop_length (h : List (Commit κ α)) : ¬ Touches (h.drop h.length) k := by
  rw [List.drop_length]
  rintro ⟨v, hv⟩
  cases hv

theorem not_touches_nil : ¬ Touches ([] : List (Commit κ α)) k := by
  rintro ⟨v, hv⟩
  cases hv

/-- Two histories of which, since they parted, the one has changed only some paths, and the other
none of them. -/
def Apart (own : κ → Prop) (h h' : List (Commit κ α)) : Prop :=
  ∃ base, base <+: h ∧ base <+: h' ∧ Within own (h.drop base.length) ∧
    Foreign own (h'.drop base.length)

namespace Apart
variable {own : κ → Prop}

theorem same (h : List (Commit κ α)) : Apart own h h :=
  ⟨h, List.prefix_rfl, List.prefix_rfl, fun _ ht => (not_touches_drop_length h ht).elim,
    fun _ _ => not_touches_drop_length h⟩

theorem of_prefix (hh : h' <+: h) (hw : Within own (h.drop h'.length)) : Apart own h h' :=
  ⟨h', hh, List.prefix_rfl, hw, fun _ _ => not_touches_drop_length h'⟩

theorem append_left (ha : Apart own h h') (hl : Within own l) : Apart own (h ++ l) h' := by
  obtain ⟨base, hb, hb', hw, hf⟩ := ha
  refine ⟨base, hb.trans (List.prefix_append h l), hb', fun k ht => ?_, hf⟩
  rw [List.drop_append_of_le_length hb.length_le, touches_append] at ht
  exact ht.elim (hw k) (hl k)

theorem append_right (ha : Apart own h h') (hl : Foreign own l) : Apart own h (h' ++ l) := by
  obtain ⟨base, hb, hb', hw, hf⟩ := ha
  refine ⟨base, hb, hb'.trans (List.prefix_append h' l), hw, fun k hk => ?_⟩
  rw [List.drop_append_of_le_length hb'.length_le, touches_append]
  exact not_or.2 ⟨hf k hk, hl k hk⟩

/-- What is only in the other history changes none of the paths. -/
theorem foreign_drop (ha : Apart own h h') (hc : h <+: h') : Foreign own (h'.drop h.length) := by
  obtain ⟨base, hb, _, _, hf⟩ := ha
  exact fun k hk ht => hf k hk (ht.of_suffix (drop_suffix_drop hb hc))

end Apart

variable [DecidableEq κ]

/-- The content of a path after the commits. -/
def contentAt (h : List (Commit κ α)) (k : κ) : Option α := (lastFor some (allChanges h) k).join

theorem lastFor_append {f : β → Option (κ × γ)} (as bs : List β) (k : κ) :
    lastFor f (as ++ bs) k = (lastFor f bs k).or (lastFor f as k) := by
  rw [lastFor, List.filterMap_append, List.reverse_append, List.find?_append]
  rw [lastFor, lastFor]
  cases List.find? (fun x => decide (x.1 = k)) (List.filterMap f bs).reverse <;> rfl

theorem lastFor_eq_none_iff {l : List (κ × γ)} : lastFor some l k = none ↔ ∀ v, (k, v) ∉ l := by
  rw [lastFor, List.filterMap_some, Option.map_eq_none_iff, List.find?_eq_none]
  constructor
  · intro hnone v hv
    exact hnone (k, v) (List.mem_reverse.2 hv) (decide_eq_true rfl)
  · intro hnone x hx hk
    obtain rfl : x.1 = k := of_decide_eq_true hk
    exact hnone x.2 (List.mem_reverse.1 hx)

theorem contentAt_append_of_not_touches (h : List (Commit κ α)) (hn : ¬ Touches h' k) :
    contentAt (h ++ h') k = contentAt h k := by
  have hnone : lastFor some (allChanges h') k = none :=
    lastFor_eq_none_iff.2 fun v hv => hn ⟨v, hv⟩
  rw [contentAt, allChanges_append, lastFor_append, hnone, Option.none_or, contentAt]

theorem contentAt_append_of_touches (h : List (Commit κ α)) (ht : Touches h' k) :
    contentAt (h ++ h') k = contentAt h' k := by
  obtain ⟨v, hv⟩ := ht
  rw [contentAt, allChanges_append, lastFor_append]
  cases hlast : lastFor some (allChanges h') k with
  | none => exact (lastFor_eq_none_iff.1 hlast v hv).elim
  | some c => rw [Option.some_or, contentAt, hlast]

/-! ## Where two histories part -/

/-- The commits that two histories begin with. -/
def mergeBase [DecidableEq α] : (h h' : List (Commit κ α)) → List (Commit κ α)
  | c :: h, c' :: h' => if c = c' then c :: mergeBase h h' else []
  | _, _ => []

section
variable [DecidableEq α]

theorem mergeBase_prefix (h h' : List (Commit κ α)) :
    mergeBase h h' <+: h ∧ mergeBase h h' <+: h' := by
  induction h generalizing h' with
  | nil => exact ⟨List.nil_prefix, List.nil_prefix⟩
  | cons c h ih =>
    cases h' with
    | nil => exact ⟨List.nil_prefix, List.nil_prefix⟩
    | cons c' h' =>
      rw [mergeBase]
      split
      · rename_i hc
        subst hc
        obtain ⟨hl, hr⟩ := ih h'
        exact ⟨List.cons_prefix_cons.2 ⟨rfl, hl⟩, List.cons_prefix_cons.2 ⟨rfl, hr⟩⟩
      · exact ⟨List.nil_prefix, List.nil_prefix⟩

theorem prefix_mergeBase (hl : base <+: h) (hr : base <+: h') : base <+: mergeBase h h' := by
  induction base generalizing h h' with
  | nil => exact List.nil_prefix
  | cons b base ih =>
    obtain ⟨l, rfl⟩ := hl
    obtain ⟨r, rfl⟩ := hr
    rw [List.cons_append, List.cons_append, mergeBase, if_pos rfl]
    exact List.cons_prefix_cons.2 ⟨rfl, ih (List.prefix_append base l) (List.prefix_append base r)⟩

end

/-- Commits of both sides change a path, and not to the same content. -/
def Clash (pending since : List (Commit κ α)) (k : κ) : Prop :=
  ∃ v v', (k, v) ∈ allChanges pending ∧ (k, v') ∈ allChanges since ∧ v ≠ v'

/-- A rebase of the commits `pending` onto those that the other side has had `since`: it stands on
them and changes no path that `pending` does not change, and it has the contents of `pending` where
both sides do not clash. -/
structure Rebased (base pending since result : List (Commit κ α)) : Prop where
  upstream : base ++ since <+: result
  within : ∀ k, Touches (result.drop (base ++ since).length) k → Touches pending k
  replayed : ∀ k, Touches pending k → ¬ Clash pending since k →
    contentAt result k = contentAt (base ++ pending) k

theorem Rebased.taken (hr : Rebased base pending since result) (hn : ¬ Touches pending k) :
    contentAt result k = contentAt (base ++ since) k := by
  rw [← append_drop hr.upstream]
  exact contentAt_append_of_not_touches _ fun ht => hn (hr.within k ht)

/-- A path that the other side has not touched keeps its content through a rebase. -/
theorem Rebased.content_of_not_touches (hr : Rebased base pending since result)
    (hn : ¬ Touches since k) : contentAt result k = contentAt (base ++ pending) k := by
  by_cases hp : Touches pending k
  · exact hr.replayed k hp fun ⟨_, v', _, hv', _⟩ => hn ⟨v', hv'⟩
  · rw [hr.taken hp, contentAt_append_of_not_touches base hn,
      contentAt_append_of_not_touches base hp]

namespace Apart
variable {own : κ → Prop}

theorem content_of_prefix (ha : Apart own h h') (hc : h <+: h') (hk : own k) :
    contentAt h' k = contentAt h k := by
  rw [← append_drop hc]
  exact contentAt_append_of_not_touches h (ha.foreign_drop hc k hk)

variable [DecidableEq α]

theorem mergeBase_sides (ha : Apart own h h') :
    Within own (h.drop (mergeBase h h').length) ∧
      Foreign own (h'.drop (mergeBase h h').length) := by
  obtain ⟨base, hb, hb', hw, hf⟩ := ha
  obtain ⟨hm, hm'⟩ := mergeBase_prefix h h'
  have hbase := prefix_mergeBase hb hb'
  exact ⟨fun k ht => hw k (ht.of_suffix (drop_suffix_drop hbase hm)),
    fun k hk ht => hf k hk (ht.of_suffix (drop_suffix_drop hbase hm'))⟩

theorem not_clash (ha : Apart own h h') (k : κ) :
    ¬ Clash (h.drop (mergeBase h h').length) (h'.drop (mergeBase h h').length) k := by
  rintro ⟨v, v', hv, hv', _⟩
  obtain ⟨hw, hf⟩ := ha.mergeBase_sides
  exact hf k (hw k ⟨v, hv⟩) ⟨v', hv'⟩

/-- A rebase onto the other history stands on it, and keeps the contents of the paths. -/
theorem rebased (ha : Apart own h h')
    (hr : Rebased (mergeBase h h') (h.drop (mergeBase h h').length)
      (h'.drop (mergeBase h h').length) result) :
    h' <+: result ∧ Apart own result h' ∧ ∀ k, own k → contentAt result k = contentAt h k := by
  obtain ⟨hw, hf⟩ := ha.mergeBase_sides
  obtain ⟨hm, hm'⟩ := mergeBase_prefix h h'
  have hup := hr.upstream
  have hin := hr.within
  rw [append_drop hm'] at hup hin
  refine ⟨hup, of_prefix hup fun k ht => hw k (hin k ht), fun k hk => ?_⟩
  rw [hr.content_of_not_touches (hf k hk), append_drop hm]

end Apart

/-! ## Changes over a history -/

/-- Changes over a history, with a new content of a path: none is kept where it is the one that the
history has. -/
def overlay [DecidableEq α] (h : List (Commit κ α)) (k : κ) (v : Option α)
    (changes : List (κ × Option α)) : List (κ × Option α) :=
  let rest := changes.filter fun c => c.1 ≠ k
  if contentAt h k = v then rest else rest ++ [(k, v)]

/-- The changes that are still some over another history. -/
def settle [DecidableEq α] (h : List (Commit κ α)) (changes : List (κ × Option α)) :
    List (κ × Option α) := changes.filter fun c => contentAt h c.1 ≠ c.2

/-- The content of a path with changes over a history. -/
def contentOver (h : List (Commit κ α)) (changes : List (κ × Option α)) (k : κ) : Option α :=
  (lastFor some changes k).getD (contentAt h k)

/-- No change is for a path. -/
def Clean (changes : List (κ × Option α)) (k : κ) : Prop := ∀ v, (k, v) ∉ changes

theorem contentOver_of_clean {changes : List (κ × Option α)} (hc : Clean changes k) :
    contentOver h changes k = contentAt h k := by
  rw [contentOver, lastFor_eq_none_iff.2 hc, Option.getD_none]

theorem contentAt_concat (h : List (Commit κ α)) (c : Commit κ α) (k : κ) :
    contentAt (h ++ [c]) k = contentOver h c.changes k := by
  have hchanges : allChanges [c] = c.changes := List.append_nil _
  rw [contentAt, allChanges_append, hchanges, lastFor_append, contentOver, contentAt]
  cases lastFor some c.changes k <;> rfl

/-- The changes give a path a content that the history does not give it. -/
structure Puts (h : List (Commit κ α)) (changes : List (κ × Option α)) (k : κ) (v : Option α) :
    Prop where
  only : ∀ w, (k, w) ∈ changes → w = v ∧ contentAt h k ≠ v
  put : contentAt h k ≠ v → (k, v) ∈ changes

section
variable {changes : List (κ × Option α)} {v : Option α}

theorem Puts.clean (hp : Puts h changes k v) (hv : contentAt h k = v) : Clean changes k :=
  fun w hw => (hp.only w hw).2 hv

theorem Puts.content (hp : Puts h changes k v) : contentOver h changes k = v := by
  by_cases hv : contentAt h k = v
  · rw [contentOver_of_clean (hp.clean hv), hv]
  · rw [contentOver]
    cases hlast : lastFor some changes k with
    | none => exact (lastFor_eq_none_iff.1 hlast v (hp.put hv)).elim
    | some w =>
      have hmem := mem_of_lastFor hlast
      rw [List.filterMap_some] at hmem
      exact (hp.only w hmem).1

end

section
variable [DecidableEq α] {changes : List (κ × Option α)} {v : Option α}

theorem Clean.settle (hc : Clean changes k) (h : List (Commit κ α)) :
    Clean (settle h changes) k := fun v hv => hc v (List.mem_of_mem_filter hv)

theorem mem_overlay_of_ne (hne : k ≠ j) (v w : Option α) :
    (k, w) ∈ overlay h j v changes ↔ (k, w) ∈ changes := by
  have hkeep : (k, w) ∈ changes.filter (fun c => c.1 ≠ j) ↔ (k, w) ∈ changes :=
    ⟨List.mem_of_mem_filter, fun hw => List.mem_filter.2 ⟨hw, decide_eq_true hne⟩⟩
  have hlast : (k, w) ∉ [(j, v)] := by
    intro hw
    cases List.mem_singleton.1 hw
    exact hne rfl
  rw [overlay]
  split
  · exact hkeep
  · rw [List.mem_append, hkeep, or_iff_left hlast]

theorem Clean.overlay (hc : Clean changes k) (hne : k ≠ j) (v : Option α) :
    Clean (overlay h j v changes) k := fun w hw => hc w ((mem_overlay_of_ne hne v w).1 hw)

theorem Puts.overlay (hp : Puts h changes k v) (hne : k ≠ j) (w : Option α) :
    Puts h (overlay h j w changes) k v where
  only u hu := hp.only u ((mem_overlay_of_ne hne w u).1 hu)
  put hv := (mem_overlay_of_ne hne w v).2 (hp.put hv)

theorem puts_overlay (h : List (Commit κ α)) (k : κ) (v : Option α)
    (changes : List (κ × Option α)) : Puts h (overlay h k v changes) k v := by
  have hrest : ∀ w, (k, w) ∉ changes.filter fun c => c.1 ≠ k := by
    intro w hw
    exact of_decide_eq_true (List.mem_filter.1 hw).2 rfl
  rw [overlay]
  split
  · rename_i hv
    exact ⟨fun w hw => (hrest w hw).elim, fun hne => (hne hv).elim⟩
  · rename_i hv
    refine ⟨fun w hw => ?_, fun _ => List.mem_append_right _ List.mem_cons_self⟩
    rcases List.mem_append.1 hw with hw | hw
    · exact (hrest w hw).elim
    · cases List.mem_singleton.1 hw
      exact ⟨rfl, hv⟩

/-- A change of a path is settled by a history that has its content. -/
theorem Puts.clean_settle (hp : Puts h changes k v) (hv : contentAt h' k = v) :
    Clean (settle h' changes) k := by
  intro w hw
  obtain ⟨hmem, hne⟩ := List.mem_filter.1 hw
  rw [(hp.only w hmem).1] at hne
  exact of_decide_eq_true hne hv

end

end Commits
