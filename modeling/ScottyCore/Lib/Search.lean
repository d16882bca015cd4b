import Mathlib.Data.List.Infix

/-! Searching a text from its beginning, and patterns that take characters one after another, with
greedy repetitions. -/

namespace TextSearch
set_option autoImplicit true

/-- The first place of a text where something is found, with what is before it. -/
def leftmost (f : List α → Option β) : List α → Option (List α × β)
  | [] => (f []).map fun x => ([], x)
  | c :: cs =>
    match f (c :: cs) with
    | some x => some ([], x)
    | none => (leftmost f cs).map fun r => (c :: r.1, r.2)

/-- Nothing is found at any place in the first text that the second one follows. -/
def Unfound (f : List α → Option β) (before after : List α) : Prop :=
  ∀ begun next, begun ++ next = before → next ≠ [] → f (next ++ after) = none

variable {f : List α → Option β} {s before after : List α}

theorem unfound_nil (f : List α → Option β) (after : List α) : Unfound f [] after := by
  intro begun next h hne
  exact (hne (List.append_eq_nil_iff.1 h).2).elim

theorem unfound_cons {c : α} : Unfound f (c :: before) after ↔
    f (c :: (before ++ after)) = none ∧ Unfound f before after := by
  constructor
  · intro h
    refine ⟨h [] (c :: before) rfl (List.cons_ne_nil c before), ?_⟩
    rintro begun next rfl hne
    exact h (c :: begun) next rfl hne
  · rintro ⟨hfirst, h⟩ begun next heq hne
    cases begun with
    | nil =>
      rw [List.nil_append] at heq
      rw [heq]
      exact hfirst
    | cons d begun => exact h begun next (List.cons.inj heq).2 hne

theorem leftmost_eq_some_iff : leftmost f s = some (before, x) ↔
    ∃ after, s = before ++ after ∧ f after = some x ∧ Unfound f before after := by
  induction s generalizing before with
  | nil =>
    rw [leftmost, Option.map_eq_some_iff]
    constructor
    · rintro ⟨y, hy, heq⟩
      obtain ⟨rfl, rfl⟩ := Prod.mk.inj heq
      exact ⟨[], rfl, hy, unfound_nil f []⟩
    · rintro ⟨after, heq, hx, -⟩
      obtain ⟨rfl, rfl⟩ := List.append_eq_nil_iff.1 heq.symm
      exact ⟨x, hx, rfl⟩
  | cons c cs ih =>
    rw [leftmost]
    cases hc : f (c :: cs) with
    | some y =>
      constructor
      · intro h
        obtain ⟨rfl, rfl⟩ := Prod.mk.inj (Option.some.inj h)
        exact ⟨c :: cs, rfl, hc, unfound_nil f _⟩
      · rintro ⟨after, heq, hx, hunfound⟩
        cases before with
        | nil =>
          obtain rfl : c :: cs = after := heq
          rw [hc] at hx
          rw [Option.some.inj hx]
        | cons d before =>
          obtain ⟨rfl, rfl⟩ := List.cons.inj heq
          cases hc.symm.trans (unfound_cons.1 hunfound).1
    | none =>
      dsimp only
      rw [Option.map_eq_some_iff]
      constructor
      · rintro ⟨⟨begun, y⟩, hy, heq⟩
        obtain ⟨rfl, rfl⟩ := Prod.mk.inj heq
        obtain ⟨after, rfl, hx, hunfound⟩ := ih.1 hy
        exact ⟨after, rfl, hx, unfound_cons.2 ⟨hc, hunfound⟩⟩
      · rintro ⟨after, heq, hx, hunfound⟩
        cases before with
        | nil =>
          obtain rfl : c :: cs = after := heq
          cases hc.symm.trans hx
        | cons d before =>
          obtain ⟨rfl, rfl⟩ := List.cons.inj heq
          exact ⟨(before, x), ih.2 ⟨after, rfl, hx, (unfound_cons.1 hunfound).2⟩, rfl⟩

/-! ## Replacing a text once -/

def stripPrefix [DecidableEq α] (old s : List α) : Option (List α) :=
  if old <+: s then some (s.drop old.length) else none

/-- `text.replace(old, new, 1)` -/
def replaceFirst [DecidableEq α] (old new s : List α) : List α :=
  match leftmost (stripPrefix old) s with
  | some (before, after) => before ++ new ++ after
  | none => s

section
variable [DecidableEq α] {old new : List α}

theorem stripPrefix_eq_some_iff : stripPrefix old s = some after ↔ s = old ++ after := by
  rw [stripPrefix]
  split
  · rename_i hpre
    obtain ⟨rest, rfl⟩ := hpre
    rw [List.drop_left, Option.some.injEq, List.append_cancel_left_eq]
  · rename_i hpre
    apply iff_of_false
    · exact nofun
    · rintro rfl
      exact hpre (List.prefix_append old after)

theorem stripPrefix_eq_none_iff : stripPrefix old s = none ↔ ¬ old <+: s := by
  rw [stripPrefix]
  split
  · rename_i hpre
    exact iff_of_false nofun fun h => h hpre
  · rename_i hpre
    exact iff_of_true rfl hpre

theorem replaceFirst_of_unfound (h : Unfound (stripPrefix old) before (old ++ after)) :
    replaceFirst old new (before ++ (old ++ after)) = before ++ new ++ after := by
  have hfirst : leftmost (stripPrefix old) (before ++ (old ++ after)) = some (before, after) :=
    leftmost_eq_some_iff.2 ⟨old ++ after, rfl, stripPrefix_eq_some_iff.2 rfl, h⟩
  rw [replaceFirst, hfirst]

/-- What is replaced is found there for the first time. -/
theorem exists_first (h : s = before ++ (old ++ after)) : ∃ begun rest,
    s = begun ++ (old ++ rest) ∧ begun.length ≤ before.length ∧
      Unfound (stripPrefix old) begun (old ++ rest) := by
  induction before generalizing s with
  | nil => exact ⟨[], after, h, Nat.le_refl 0, unfound_nil _ _⟩
  | cons c before ih =>
    obtain ⟨begun, rest, heq, hlen, hunfound⟩ := ih rfl
    by_cases hc : old <+: c :: (before ++ (old ++ after))
    · obtain ⟨rest', hrest'⟩ := hc
      exact ⟨[], rest', h.trans hrest'.symm, Nat.zero_le _, unfound_nil _ _⟩
    · refine ⟨c :: begun, rest, ?_, Nat.succ_le_succ hlen, ?_⟩
      · rw [h, List.cons_append, heq, List.cons_append]
      · rw [unfound_cons, stripPrefix_eq_none_iff, ← heq]
        exact ⟨hc, hunfound⟩

end

/-! ## Where a text occurs -/

/-- What is before the first place of a text, and what is after it. -/
def cut [DecidableEq α] (sub s : List α) : Option (List α × List α) := leftmost (stripPrefix sub) s

/-- At how many places a text occurs. -/
def occurrences [DecidableEq α] (sub : List α) : List α → Nat
  | [] => if sub = [] then 1 else 0
  | c :: s => if sub <+: c :: s then occurrences sub s + 1 else occurrences sub s

section
variable [DecidableEq α] {sub : List α}

theorem cut_eq_some_iff : cut sub s = some (before, after) ↔
    s = before ++ (sub ++ after) ∧ Unfound (stripPrefix sub) before (sub ++ after) := by
  rw [cut, leftmost_eq_some_iff]
  constructor
  · rintro ⟨rest, rfl, hrest, hunfound⟩
    obtain rfl := stripPrefix_eq_some_iff.1 hrest
    exact ⟨rfl, hunfound⟩
  · rintro ⟨rfl, hunfound⟩
    exact ⟨sub ++ after, rfl, stripPrefix_eq_some_iff.2 rfl, hunfound⟩

/-- The first place is no later than any other. -/
theorem exists_cut (h : s = before ++ (sub ++ after)) :
    ∃ begun rest, cut sub s = some (begun, rest) ∧ begun <+: before ∧ after <:+ rest := by
  obtain ⟨begun, rest, heq, hlength, hunfound⟩ := exists_first h
  refine ⟨begun, rest, cut_eq_some_iff.2 ⟨heq, hunfound⟩, ?_, ?_⟩
  · exact List.prefix_of_prefix_length_le ⟨_, heq.symm⟩ ⟨_, h.symm⟩ hlength
  · have hafter : after <:+ s := ⟨before ++ sub, by rw [h, List.append_assoc]⟩
    have hrest : rest <:+ s := ⟨begun ++ sub, by rw [heq, List.append_assoc]⟩
    have hlengths := congrArg List.length (heq.symm.trans h)
    simp only [List.length_append] at hlengths
    exact List.suffix_of_suffix_length_le hafter hrest (by omega)

theorem infix_of_cut (h : cut sub s = some (before, after)) : sub <:+: s :=
  ⟨before, after, by rw [(cut_eq_some_iff.1 h).1, List.append_assoc]⟩

theorem cut_eq_none_iff : cut sub s = none ↔ ¬ sub <:+: s := by
  constructor
  · rintro hnone ⟨before, after, rfl⟩
    obtain ⟨begun, rest, hcut, -⟩ := exists_cut (List.append_assoc before sub after)
    cases hnone.symm.trans hcut
  · intro h
    cases hcut : cut sub s with
    | none => rfl
    | some r => exact (h (infix_of_cut hcut)).elim

theorem one_le_occurrences (before after : List α) :
    1 ≤ occurrences sub (before ++ (sub ++ after)) := by
  induction before with
  | nil =>
    rw [List.nil_append]
    cases h : sub ++ after with
    | nil => rw [occurrences, if_pos (List.append_eq_nil_iff.1 h).1]
    | cons c s =>
      rw [occurrences, if_pos (h ▸ List.prefix_append sub after)]
      exact Nat.le_add_left 1 _
  | cons c before ih =>
    rw [List.cons_append, occurrences]
    split
    · exact Nat.le_succ_of_le ih
    · exact ih

/-- A text that occurs once is found there. -/
theorem cut_of_occurrences (h : occurrences sub (before ++ (sub ++ after)) = 1) :
    cut sub (before ++ (sub ++ after)) = some (before, after) := by
  rw [cut_eq_some_iff, and_iff_right rfl]
  induction before with
  | nil => exact unfound_nil _ _
  | cons c before ih =>
    have hone : 1 ≤ occurrences sub (before ++ (sub ++ after)) := one_le_occurrences before after
    rw [List.cons_append, occurrences] at h
    rw [unfound_cons, stripPrefix_eq_none_iff]
    split at h
    · omega
    · rename_i hbegins
      exact ⟨hbegins, ih h⟩

end

/-! ## Patterns -/

/-- One character, or as many as there are. -/
inductive Piece (α : Type u) where
  | one (p : α → Bool)
  | star (p : α → Bool)

/-- Take as many characters as can be, and fewer where what follows does not match then. -/
def greedy (p : α → Bool) (f : List α → Option (List α × β)) : List α → Option (List α × β)
  | [] => f []
  | c :: cs =>
    if p c then
      match greedy p f cs with
      | some x => some (c :: x.1, x.2)
      | none => f (c :: cs)
    else f (c :: cs)

/-- What a pattern takes at the beginning of a text, where it can go on. -/
def matchThen : List (Piece α) → (List α → Option β) → List α → Option (List α × β)
  | [], k, s => (k s).map fun x => ([], x)
  | .one _ :: _, _, [] => none
  | .one p :: ps, k, c :: cs =>
    if p c then (matchThen ps k cs).map fun x => (c :: x.1, x.2) else none
  | .star p :: ps, k, s => greedy p (matchThen ps k) s

/-- The texts of a pattern. -/
inductive Matches : List (Piece α) → List α → Prop where
  | nil : Matches [] []
  | one : p c = true → Matches ps t → Matches (.one p :: ps) (c :: t)
  | star : (∀ c ∈ run, p c = true) → Matches ps t → Matches (.star p :: ps) (run ++ t)

theorem matches_append (h : Matches ps t) (h' : Matches qs t') : Matches (ps ++ qs) (t ++ t') := by
  induction h with
  | nil => exact h'
  | one hc _ ih => exact .one hc ih
  | star hrun _ ih =>
    rw [List.append_assoc]
    exact .star hrun ih

theorem exists_of_matches_append (h : Matches (ps ++ qs) s) :
    ∃ t t', s = t ++ t' ∧ Matches ps t ∧ Matches qs t' := by
  induction ps generalizing s with
  | nil => exact ⟨[], s, rfl, .nil, h⟩
  | cons piece ps ih =>
    cases h with
    | one hc hrest =>
      obtain ⟨t, t', rfl, ht, ht'⟩ := ih hrest
      exact ⟨_ :: t, t', rfl, .one hc ht, ht'⟩
    | star hrun hrest =>
      obtain ⟨t, t', rfl, ht, ht'⟩ := ih hrest
      exact ⟨_ ++ t, t', (List.append_assoc _ _ _).symm, .star hrun ht, ht'⟩

theorem greedy_eq_some {p : α → Bool} {f : List α → Option (List α × β)}
    (h : greedy p f s = some (t, x)) : ∃ run t' rest, s = run ++ rest ∧ t = run ++ t' ∧
      (∀ c ∈ run, p c = true) ∧ f rest = some (t', x) := by
  induction s generalizing t with
  | nil => exact ⟨[], t, [], rfl, rfl, fun _ hc => (List.not_mem_nil hc).elim, h⟩
  | cons c cs ih =>
    have hstop : f (c :: cs) = some (t, x) → ∃ run t' rest, c :: cs = run ++ rest ∧
        t = run ++ t' ∧ (∀ c ∈ run, p c = true) ∧ f rest = some (t', x) :=
      fun hf => ⟨[], t, c :: cs, rfl, rfl, fun _ hc => (List.not_mem_nil hc).elim, hf⟩
    rw [greedy] at h
    split at h
    · rename_i hc
      split at h
      · rename_i y hy
        obtain ⟨rfl, rfl⟩ := Prod.mk.inj (Option.some.inj h)
        obtain ⟨run, t', rest, rfl, ht, hrun, hrest⟩ := ih hy
        rw [ht]
        exact ⟨c :: run, t', rest, rfl, rfl, List.forall_mem_cons.2 ⟨hc, hrun⟩, hrest⟩
      · exact hstop h
    · exact hstop h

/-- What is matched is a text of the pattern. -/
theorem matches_of_matchThen {k : List α → Option β} (h : matchThen ps k s = some (t, x)) :
    ∃ rest, s = t ++ rest ∧ Matches ps t ∧ k rest = some x := by
  induction ps generalizing s t with
  | nil =>
    obtain ⟨y, hy, heq⟩ := Option.map_eq_some_iff.1 h
    obtain ⟨rfl, rfl⟩ := Prod.mk.inj heq
    exact ⟨s, rfl, .nil, hy⟩
  | cons piece ps ih =>
    cases piece with
    | one p =>
      cases s with
      | nil => cases h
      | cons c cs =>
        rw [matchThen] at h
        split at h
        · rename_i hc
          obtain ⟨⟨t', y⟩, hy, heq⟩ := Option.map_eq_some_iff.1 h
          obtain ⟨rfl, rfl⟩ := Prod.mk.inj heq
          obtain ⟨rest, rfl, hmatch, hk⟩ := ih hy
          exact ⟨rest, rfl, .one hc hmatch, hk⟩
        · cases h
    | star p =>
      obtain ⟨run, t', rest', rfl, rfl, hrun, hrest⟩ := greedy_eq_some h
      obtain ⟨rest, rfl, hmatch, hk⟩ := ih hrest
      exact ⟨rest, (List.append_assoc _ _ _).symm, .star hrun hmatch, hk⟩

/-! ### Patterns that match in one way -/

/-- What a text of the pattern, with what follows it, can begin with. -/
def begins (next : α → Prop) : List (Piece α) → α → Prop
  | [], c => next c
  | .one p :: _, c => p c = true
  | .star p :: ps, c => p c = true ∨ begins next ps c

/-- Each repetition ends where what follows it begins. -/
def Separate (next : α → Prop) : List (Piece α) → Prop
  | [] => True
  | .one _ :: ps => Separate next ps
  | .star p :: ps => (∀ c, p c = true → ¬ begins next ps c) ∧ Separate next ps

theorem begins_head {next : α → Prop} (h : Matches ps t) (hnext : ∀ c ∈ after.head?, next c) :
    ∀ c ∈ (t ++ after).head?, begins next ps c := by
  induction h with
  | nil => exact hnext
  | one hp =>
    intro c hc
    obtain rfl := Option.some.inj hc
    exact hp
  | @star run p ps t hrun _ ih =>
    intro c hc
    cases run with
    | nil => exact .inr (ih c hc)
    | cons d run =>
      obtain rfl := Option.some.inj hc
      exact .inl (hrun d List.mem_cons_self)

theorem greedy_of_stop {p : α → Bool} {f : List α → Option (List α × β)} {run : List α}
    (hrun : ∀ c ∈ run, p c = true) (hstop : ∀ c ∈ s.head?, p c = false) (h : f s = some (t, x)) :
    greedy p f (run ++ s) = some (run ++ t, x) := by
  induction run with
  | nil =>
    cases s with
    | nil => exact h
    | cons c cs =>
      have hc := hstop c rfl
      rw [List.nil_append, greedy, hc]
      exact h
  | cons c run ih =>
    have hrest := ih fun d hd => hrun d (List.mem_cons_of_mem c hd)
    rw [List.cons_append, greedy, if_pos (hrun c List.mem_cons_self), hrest]
    rfl

theorem matchThen_of_matches {k : List α → Option β} {next : α → Prop} (hseparate : Separate next ps)
    (h : Matches ps t) (hnext : ∀ c ∈ after.head?, next c) (hk : k after = some x) :
    matchThen ps k (t ++ after) = some (t, x) := by
  induction h with
  | nil =>
    rw [List.nil_append, matchThen, hk]
    rfl
  | one hc _ ih =>
    rw [List.cons_append, matchThen, if_pos hc, ih hseparate]
    rfl
  | @star run p ps t hrun hmatch ih =>
    rw [List.append_assoc, matchThen]
    apply greedy_of_stop hrun _ (ih hseparate.2)
    intro c hc
    apply Bool.eq_false_iff.2
    intro hp
    exact hseparate.1 c hp (begins_head hmatch hnext c hc)

end TextSearch
