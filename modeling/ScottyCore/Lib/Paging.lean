import Mathlib.Data.List.Nodup
import Mathlib.Data.List.Sort

/-! Pages of rows that are put in order anew for each page, where rows may tie. -/

namespace Paging
set_option autoImplicit true

/-- The rows in one of their orders. -/
structure Listing (le : α → α → Prop) (rows listed : List α) : Prop where
  perm : listed.Perm rows
  sorted : listed.Pairwise le

/-- The page at the offset `k * per_page`. -/
def page (per_page k : Nat) (listed : List α) : List α :=
  (listed.drop (k * per_page)).take per_page

/-- The first pages, each from an order of its own. -/
def pages (per_page count : Nat) (listed : Nat → List α) : List α :=
  (List.range count).flatMap fun k => page per_page k (listed k)

def pageCount (per_page total : Nat) : Nat := (total + per_page - 1) / per_page

/-- In whatever orders they are taken from, the pages give each row once. -/
def Complete (le : α → α → Prop) (per_page : Nat) (rows : List α) : Prop :=
  ∀ listed : Nat → List α, (∀ k, Listing le rows (listed k)) →
    (pages per_page (pageCount per_page rows.length) listed).Perm rows

/-- Some `b` rows come strictly before all others. -/
def Separated (le : α → α → Prop) (rows : List α) (b : Nat) : Prop :=
  ∃ lower upper : List α, (lower ++ upper).Perm rows ∧ lower.length = b ∧
    ∀ x ∈ lower, ∀ y ∈ upper, ¬ le y x

section
variable {le : α → α → Prop} {rows l l' : List α} {listed : Nat → List α} {b per_page : Nat}

theorem pages_succ (per_page count : Nat) (listed : Nat → List α) :
    pages per_page (count + 1) listed =
      pages per_page count listed ++ page per_page count (listed count) := by
  rw [pages, List.range_succ, List.flatMap_append, List.flatMap_singleton]
  rfl

theorem take_append_page (per_page count : Nat) (l : List α) :
    l.take (count * per_page) ++ page per_page count l = l.take ((count + 1) * per_page) := by
  rw [Nat.succ_mul, List.take_add]
  rfl

theorem pages_const (per_page count : Nat) (l : List α) :
    pages per_page count (fun _ => l) = l.take (count * per_page) := by
  induction count with
  | zero => rw [Nat.zero_mul]; rfl
  | succ count ih => rw [pages_succ, ih, take_append_page]

theorem pages_congr (h : ∀ k < count, listed k = listed' k) :
    pages per_page count listed = pages per_page count listed' := by
  induction count with
  | zero => rfl
  | succ count ih =>
    rw [pages_succ, pages_succ, h count (Nat.lt_succ_self count),
      ih fun k hk => h k (Nat.lt_succ_of_lt hk)]

/-- Fewer pages are the beginning of more pages. -/
theorem pages_prefix (h : count ≤ count') (per_page : Nat) (listed : Nat → List α) :
    pages per_page count listed <+: pages per_page count' listed := by
  induction h with
  | refl => exact List.prefix_refl _
  | step _ ih =>
    rw [pages_succ]
    exact ih.trans (List.prefix_append _ _)

/-- In every order, the rows that come before all others are taken first. -/
theorem Listing.take_perm (hl : Listing le rows l) (hnodup : rows.Nodup)
    (hperm : (lower ++ upper).Perm rows) (hlower : ∀ x ∈ lower, ∀ y ∈ upper, ¬ le y x) :
    (l.take lower.length).Perm lower := by
  have hl_nodup : l.Nodup := hl.perm.nodup_iff.2 hnodup
  have hparts : (lower ++ upper).Nodup := hperm.nodup_iff.2 hnodup
  have hlength : lower.length ≤ l.length := by
    rw [hl.perm.length_eq, ← hperm.length_eq, List.length_append]
    exact Nat.le_add_right _ _
  have htake : (l.take lower.length).length = lower.length := by
    rw [List.length_take, Nat.min_eq_left hlength]
  have hsub : l.take lower.length ⊆ lower := by
    intro u hu
    have hu_rows : u ∈ lower ++ upper :=
      hperm.mem_iff.2 (hl.perm.mem_iff.1 (List.mem_of_mem_take hu))
    refine (List.mem_append.1 hu_rows).resolve_right fun hupper => ?_
    -- then a row of `lower` was left for later
    have hleft : ∃ x ∈ lower, x ∉ l.take lower.length := by
      by_contra hall
      have hcons : (u :: lower).Nodup :=
        List.nodup_cons.2 ⟨fun h => List.disjoint_of_nodup_append hparts h hupper,
          (List.nodup_append.1 hparts).1⟩
      have hall' : u :: lower ⊆ l.take lower.length := by
        intro x hx
        rcases List.mem_cons.1 hx with rfl | hx
        · exact hu
        · by_contra hnot
          exact hall ⟨x, hx, hnot⟩
      have hle := (List.subperm_of_subset hcons hall').length_le
      rw [htake, List.length_cons] at hle
      exact Nat.not_succ_le_self _ hle
    obtain ⟨x, hx, hnot⟩ := hleft
    have hx_l : x ∈ l.take lower.length ++ l.drop lower.length := by
      rw [List.take_append_drop]
      exact hl.perm.mem_iff.2 (hperm.mem_iff.1 (List.mem_append_left _ hx))
    have hx_drop := (List.mem_append.1 hx_l).resolve_left hnot
    have hsorted := hl.sorted
    rw [← List.take_append_drop lower.length l, List.pairwise_append] at hsorted
    exact hlower x hx u hupper (hsorted.2.2 u hu x hx_drop)
  exact (List.subperm_of_subset (hl_nodup.sublist (List.take_sublist _ _)) hsub).perm_of_length_le
    (Nat.le_of_eq htake.symm)

/-- At a boundary that parts no tie, all orders agree on the rows before it. -/
theorem Listing.take_perm_take (hl : Listing le rows l) (hl' : Listing le rows l')
    (hnodup : rows.Nodup) (h : 0 < b → b < rows.length → Separated le rows b) :
    (l.take b).Perm (l'.take b) := by
  by_cases hb : 0 < b
  · by_cases hlt : b < rows.length
    · obtain ⟨lower, upper, hperm, rfl, hlower⟩ := h hb hlt
      exact (hl.take_perm hnodup hperm hlower).trans (hl'.take_perm hnodup hperm hlower).symm
    · have hall : l.take b = l :=
        List.take_of_length_le (hl.perm.length_eq ▸ Nat.not_lt.1 hlt)
      have hall' : l'.take b = l' :=
        List.take_of_length_le (hl'.perm.length_eq ▸ Nat.not_lt.1 hlt)
      rw [hall, hall']
      exact hl.perm.trans hl'.perm.symm
  · rw [Nat.eq_zero_of_not_pos hb]
    exact .refl _

theorem pages_perm_take (hnodup : rows.Nodup) (hlisted : ∀ k, Listing le rows (listed k))
    (h : ∀ j, 0 < j * per_page → j * per_page < rows.length → Separated le rows (j * per_page))
    (count : Nat) (hl : Listing le rows l) :
    (pages per_page count listed).Perm (l.take (count * per_page)) := by
  induction count generalizing l with
  | zero =>
    rw [Nat.zero_mul]
    exact .refl _
  | succ count ih =>
    have hstep : (pages per_page (count + 1) listed).Perm
        ((listed count).take ((count + 1) * per_page)) := by
      rw [pages_succ, ← take_append_page]
      exact (ih (hlisted count)).append_right _
    exact hstep.trans ((hlisted count).take_perm_take hl hnodup (h (count + 1)))

theorem le_pageCount_mul (hpp : 0 < per_page) (total : Nat) :
    total ≤ pageCount per_page total * per_page := by
  have hdiv := Nat.div_add_mod (total + per_page - 1) per_page
  have hmod := Nat.mod_lt (total + per_page - 1) hpp
  rw [pageCount, Nat.mul_comm]
  omega

theorem lt_pageCount (hpp : 0 < per_page) (h : j * per_page < total) :
    j < pageCount per_page total := by
  rw [pageCount, ← Nat.succ_le_iff, Nat.le_div_iff_mul_le hpp, Nat.succ_mul]
  omega

theorem complete_of_separated (hpp : 0 < per_page) (hnodup : rows.Nodup)
    (h : ∀ j, 0 < j * per_page → j * per_page < rows.length → Separated le rows (j * per_page)) :
    Complete le per_page rows := by
  intro listed hlisted
  have hl := hlisted 0
  have hpages := pages_perm_take hnodup hlisted h (pageCount per_page rows.length) hl
  rw [List.take_of_length_le (hl.perm.length_eq ▸ le_pageCount_mul hpp rows.length)] at hpages
  exact hpages.trans hl.perm

/-- Two rows that tie and are neighbours may stand the other way. -/
theorem Listing.swap (h : Listing le rows (before ++ u :: v :: after)) (htie : le v u) :
    Listing le rows (before ++ v :: u :: after) := by
  constructor
  · exact ((List.Perm.swap u v after).append_left before).trans h.perm
  · have hsorted := h.sorted
    simp only [List.pairwise_append, List.pairwise_cons, List.mem_cons] at hsorted ⊢
    obtain ⟨hbefore, ⟨hu, hv, hafter⟩, hcross⟩ := hsorted
    refine ⟨hbefore, ⟨?_, ?_, hafter⟩, ?_⟩
    · rintro x (rfl | hx)
      · exact htie
      · exact hv x hx
    · exact fun x hx => hu x (.inr hx)
    · rintro x hx y (rfl | rfl | hy)
      · exact hcross x hx y (.inr (.inl rfl))
      · exact hcross x hx y (.inl rfl)
      · exact hcross x hx y (.inr (.inr hy))

/-- A page boundary between two rows that tie: one of them may come on both pages. -/
theorem not_complete_of_tie (hpp : 0 < per_page) (hnodup : rows.Nodup)
    (hl : Listing le rows (before ++ u :: v :: after)) (htie : le v u)
    (hbefore : before.length + 1 = j * per_page) : ¬ Complete le per_page rows := by
  intro hcomplete
  have hpages := hcomplete
    (fun k => if k < j then before ++ u :: v :: after else before ++ v :: u :: after) (fun k => by
      split
      · exact hl
      · exact hl.swap htie)
  have hlt : j * per_page < rows.length := by
    rw [← hl.perm.length_eq, List.length_append, List.length_cons, List.length_cons]
    omega
  have hprefix := pages_prefix (lt_pageCount hpp hlt) per_page
    (fun k => if k < j then before ++ u :: v :: after else before ++ v :: u :: after)
  have hnodup_pages := (hpages.nodup_iff.2 hnodup).sublist hprefix.sublist
  have hbegun : pages per_page j
      (fun k => if k < j then before ++ u :: v :: after else before ++ v :: u :: after) =
        pages per_page j fun _ => before ++ u :: v :: after := pages_congr fun k hk => if_pos hk
  rw [Nat.succ_eq_add_one, pages_succ, hbegun, pages_const, if_neg (Nat.lt_irrefl j)] at hnodup_pages
  have hfirst : u ∈ (before ++ u :: v :: after).take (j * per_page) := by
    rw [← hbefore, List.take_append, List.take_of_length_le (Nat.le_succ _), Nat.add_sub_cancel_left]
    exact List.mem_append_right _ List.mem_cons_self
  have hsecond : u ∈ page per_page j (before ++ v :: u :: after) := by
    have hdrop : (before ++ v :: u :: after).drop (before.length + 1) = u :: after := by
      rw [List.drop_append, List.drop_of_length_le (Nat.le_succ _), Nat.add_sub_cancel_left]
      rfl
    rw [page, ← hbefore, hdrop, ← Nat.succ_pred_eq_of_pos hpp, List.take_succ_cons]
    exact List.mem_cons_self
  exact List.disjoint_of_nodup_append hnodup_pages hfirst hsecond

theorem exists_listing (le : α → α → Prop) [IsTrans α le] [Std.Total le] (rows : List α) :
    ∃ listed, Listing le rows listed := by
  classical
  exact ⟨rows.insertionSort le, List.perm_insertionSort le rows, List.pairwise_insertionSort le rows⟩

theorem exists_neighbours {k : Nat} (h : k + 1 < l.length) :
    ∃ before u v after, l = before ++ u :: v :: after ∧ before.length = k := by
  induction k generalizing l with
  | zero =>
    match l, h with
    | u :: v :: after, _ => exact ⟨[], u, v, after, rfl, rfl⟩
  | succ k ih =>
    cases l with
    | nil => cases h
    | cons x l =>
      obtain ⟨before, u, v, after, rfl, rfl⟩ := ih (Nat.lt_of_succ_lt_succ h)
      exact ⟨x :: before, u, v, after, rfl, rfl⟩

/-- The pages are complete where no page boundary parts two rows that tie. -/
theorem complete_iff [IsTrans α le] [Std.Total le] (hpp : 0 < per_page) (hnodup : rows.Nodup) :
    Complete le per_page rows ↔ ∀ j, 0 < j * per_page → j * per_page < rows.length →
      Separated le rows (j * per_page) := by
  constructor
  · intro hcomplete j hpos hlt
    obtain ⟨listed, hl⟩ := exists_listing le rows
    have hlength : j * per_page - 1 + 1 < listed.length := by
      rw [hl.perm.length_eq]
      omega
    obtain ⟨before, u, v, after, rfl, hbefore⟩ := exists_neighbours hlength
    have hboundary : before.length + 1 = j * per_page := by omega
    have hstrict : ¬ le v u := fun htie =>
      not_complete_of_tie hpp hnodup hl htie hboundary hcomplete
    have hrefl : ∀ x, le x x := fun x => (Std.Total.total x x).elim id id
    have hsorted := hl.sorted
    simp only [List.pairwise_append, List.pairwise_cons, List.mem_cons] at hsorted
    refine ⟨before ++ [u], v :: after, ?_, ?_, ?_⟩
    · rw [List.append_assoc]
      exact hl.perm
    · rw [List.length_append]
      exact hboundary
    · intro x hx y hy hle
      have hxu : le x u := by
        rcases List.mem_append.1 hx with hx | hx
        · exact hsorted.2.2 x hx u (.inl rfl)
        · rw [List.mem_singleton.1 hx]
          exact hrefl u
      have hvy : le v y := by
        rcases List.mem_cons.1 hy with rfl | hy
        · exact hrefl y
        · exact hsorted.2.1.2.1 y hy
      exact hstrict (IsTrans.trans v x u (IsTrans.trans v y x hvy hle) hxu)
  · exact complete_of_separated hpp hnodup

/-- Where no two rows tie, every boundary parts the rows strictly. -/
theorem separated_of_antisymm [IsTrans α le] [Std.Total le] (hnodup : rows.Nodup)
    (h : ∀ x ∈ rows, ∀ y ∈ rows, le x y → le y x → x = y) (hb : b ≤ rows.length) :
    Separated le rows b := by
  obtain ⟨listed, hl⟩ := exists_listing le rows
  have hparts : listed.take b ++ listed.drop b = listed := List.take_append_drop b listed
  have hlisted : (listed.take b ++ listed.drop b).Nodup := by
    rw [hparts]
    exact hl.perm.nodup_iff.2 hnodup
  have hsorted := hl.sorted
  rw [← hparts, List.pairwise_append] at hsorted
  refine ⟨listed.take b, listed.drop b, hparts.symm ▸ hl.perm, ?_, ?_⟩
  · rw [List.length_take, hl.perm.length_eq, Nat.min_eq_left hb]
  · intro x hx y hy hle
    have hx_rows := hl.perm.mem_iff.1 (List.mem_of_mem_take hx)
    have hy_rows := hl.perm.mem_iff.1 (List.mem_of_mem_drop hy)
    have heq := h x hx_rows y hy_rows (hsorted.2.2 x hx y hy) hle
    exact List.disjoint_of_nodup_append hlisted hx (heq ▸ hy)

end

end Paging
