namespace Python
set_option autoImplicit true

/-! ## When code that raises returns -/

theorem bind_eq_ok {x : Except ε α} {f : α → Except ε β} :
    x >>= f = .ok b ↔ ∃ a, x = .ok a ∧ f a = .ok b := by
  cases x with
  | error e => exact ⟨nofun, nofun⟩
  | ok a => exact ⟨fun h => ⟨a, rfl, h⟩, fun ⟨_, ha, h⟩ => Except.ok.inj ha ▸ h⟩

/-- `if p: raise e` in front of `x` -/
theorem raise_eq_ok [Decidable p] {f : β → Except ε α} {x : Except ε α} :
    (if p then throw e >>= f else x) = .ok b ↔ ¬ p ∧ x = .ok b := by
  split
  · rename_i hp
    exact ⟨nofun, fun h => (h.1 hp).elim⟩
  · rename_i hp
    exact ⟨fun h => ⟨hp, h⟩, And.right⟩

theorem map_eq_ok {x : Except ε α} {f : α → β} :
    x.map f = .ok b ↔ ∃ a, x = .ok a ∧ f a = b := by
  cases x with
  | error e => exact ⟨nofun, nofun⟩
  | ok a => exact ⟨fun h => ⟨a, rfl, Except.ok.inj h⟩, fun ⟨_, ha, h⟩ => by cases ha; rw [← h]; rfl⟩

theorem map_eq_error {x : Except ε α} {f : α → β} : x.map f = .error e ↔ x = .error e := by
  cases x with
  | error e' => exact ⟨fun h => by cases h; rfl, fun h => by cases h; rfl⟩
  | ok a => exact ⟨nofun, nofun⟩

theorem bind_of_error {x : Except ε α} {f : α → Except ε β} (hx : x = .error e) :
    x >>= f = .error e := hx ▸ rfl

theorem bind_eq_error {x : Except ε α} {f : α → Except ε β} (hx : x = .ok a)
    (hf : f a = .error e) : x >>= f = .error e := hx ▸ hf

theorem map_some_eq_ok {x : Except ε α} : x.map some = .ok (some a) ↔ x = .ok a := by
  cases x with
  | error e => exact ⟨nofun, nofun⟩
  | ok b => exact ⟨fun h => congrArg _ (Option.some.inj (Except.ok.inj h)), congrArg _⟩

/-! ## Passes over a list -/

theorem mapM_cons_eq_ok {f : α → Except ε β} {ys : List β} :
    (x :: xs).mapM f = .ok ys ↔ ∃ y ys', f x = .ok y ∧ xs.mapM f = .ok ys' ∧ ys = y :: ys' := by
  rw [List.mapM_cons]
  constructor
  · intro h
    obtain ⟨y, hy, h⟩ := bind_eq_ok.1 h
    obtain ⟨ys', hys, h⟩ := bind_eq_ok.1 h
    exact ⟨y, ys', hy, hys, (Except.ok.inj h).symm⟩
  · rintro ⟨y, ys', hy, hys, rfl⟩
    exact bind_eq_ok.2 ⟨y, hy, bind_eq_ok.2 ⟨ys', hys, rfl⟩⟩

theorem mapM_error_of_mem {f : α → Except ε β} {xs : List α} (hx : x ∈ xs)
    (hf : f x = .error e) : ∃ e', xs.mapM f = .error e' := by
  induction xs with
  | nil => cases hx
  | cons y ys ih =>
    rw [List.mapM_cons]
    cases hy : f y with
    | error e' => exact ⟨e', rfl⟩
    | ok v =>
      rcases List.mem_cons.1 hx with rfl | hx
      · rw [hf] at hy
        cases hy
      · obtain ⟨e', he⟩ := ih hx
        exact ⟨e', by rw [he]; rfl⟩

theorem mapM_ok_of_forall {f : α → Except ε β} {g : α → β} {xs : List α}
    (h : ∀ x ∈ xs, f x = .ok (g x)) : xs.mapM f = .ok (xs.map g) := by
  induction xs with
  | nil => rfl
  | cons y ys ih =>
    rw [List.mapM_cons, h y List.mem_cons_self, ih fun x hx => h x (List.mem_cons_of_mem _ hx)]
    rfl

theorem exists_mapM_ok {f : α → Except ε β} {xs : List α} (h : ∀ x ∈ xs, ∃ y, f x = .ok y) :
    ∃ ys, xs.mapM f = .ok ys := by
  induction xs with
  | nil => exact ⟨[], rfl⟩
  | cons x xs ih =>
    obtain ⟨y, hy⟩ := h x List.mem_cons_self
    obtain ⟨ys, hys⟩ := ih fun x' hx => h x' (List.mem_cons_of_mem _ hx)
    exact ⟨y :: ys, mapM_cons_eq_ok.2 ⟨y, ys, hy, hys, rfl⟩⟩

theorem mapM_ok_congr {f g : α → Except ε β} {xs : List α} (h : xs.mapM f = .ok ys)
    (hfg : ∀ x ∈ xs, g x = f x) : xs.mapM g = .ok ys := by
  induction xs generalizing ys with
  | nil => exact h
  | cons x xs ih =>
    obtain ⟨z, zs, hz, hzs, rfl⟩ := mapM_cons_eq_ok.1 h
    have hrest := ih hzs fun x' hx => hfg x' (List.mem_cons_of_mem _ hx)
    exact mapM_cons_eq_ok.2 ⟨z, zs, (hfg x List.mem_cons_self).trans hz, hrest, rfl⟩

theorem mem_of_mapM_ok {f : α → Except ε β} {xs : List α} {ys : List β}
    (h : xs.mapM f = .ok ys) : y ∈ ys ↔ ∃ x ∈ xs, f x = .ok y := by
  induction xs generalizing ys with
  | nil =>
    cases h
    exact ⟨nofun, nofun⟩
  | cons x xs ih =>
    obtain ⟨z, zs, hz, hzs, rfl⟩ := mapM_cons_eq_ok.1 h
    rw [List.mem_cons, ih hzs]
    constructor
    · rintro (rfl | ⟨x', hx', hy⟩)
      · exact ⟨x, List.mem_cons_self, hz⟩
      · exact ⟨x', List.mem_cons_of_mem _ hx', hy⟩
    · rintro ⟨x', hx', hy⟩
      rcases List.mem_cons.1 hx' with rfl | hx'
      · cases hz.symm.trans hy
        exact .inl rfl
      · exact .inr ⟨x', hx', hy⟩

/-- What every element keeps, the list keeps. -/
theorem map_of_mapM_ok {f : α → Except ε β} {g : α → γ} {g' : β → γ} {xs : List α} {ys : List β}
    (h : xs.mapM f = .ok ys) (hf : ∀ x y, f x = .ok y → g' y = g x) : ys.map g' = xs.map g := by
  induction xs generalizing ys with
  | nil =>
    cases h
    rfl
  | cons x xs ih =>
    obtain ⟨z, zs, hz, hzs, rfl⟩ := mapM_cons_eq_ok.1 h
    rw [List.map_cons, List.map_cons, hf x z hz, ih hzs]

/-- A fold that returns is followed step by step by another one. -/
theorem foldlM_simulation {R : σ → τ → Prop} {f : σ → α → Except ε σ} {g : τ → β → Except ε' τ}
    {h : α → β} (hstep : ∀ {s t a s'}, R s t → f s a = .ok s' → ∃ t', g t (h a) = .ok t' ∧ R s' t')
    {xs : List α} {s s' : σ} {t : τ} (hr : R s t) (hf : xs.foldlM f s = .ok s') :
    ∃ t', (xs.map h).foldlM g t = .ok t' ∧ R s' t' := by
  induction xs generalizing s t with
  | nil =>
    cases hf
    exact ⟨t, rfl, hr⟩
  | cons x xs ih =>
    rw [List.foldlM_cons] at hf
    obtain ⟨s₁, hs₁, hf⟩ := bind_eq_ok.1 hf
    obtain ⟨t₁, ht₁, hr₁⟩ := hstep hr hs₁
    obtain ⟨t', ht', hr'⟩ := ih hr₁ hf
    exact ⟨t', bind_eq_ok.2 ⟨t₁, ht₁, ht'⟩, hr'⟩

/-- A fold whose steps return whatever went before returns when each of its steps does. -/
theorem foldlM_ok_iff {P : α → Prop} {f : σ → α → Except ε σ}
    (hf : ∀ s a, (∃ s', f s a = .ok s') ↔ P a) (xs : List α) (s : σ) :
    (∃ s', xs.foldlM f s = .ok s') ↔ ∀ a ∈ xs, P a := by
  induction xs generalizing s with
  | nil => exact ⟨fun _ => nofun, fun _ => ⟨s, rfl⟩⟩
  | cons x xs ih =>
    rw [List.forall_mem_cons]
    constructor
    · rintro ⟨s', h⟩
      obtain ⟨s₁, hs₁, h⟩ := bind_eq_ok.1 h
      exact ⟨(hf s x).1 ⟨s₁, hs₁⟩, (ih s₁).1 ⟨s', h⟩⟩
    · rintro ⟨hx, hxs⟩
      obtain ⟨s₁, hs₁⟩ := (hf s x).2 hx
      obtain ⟨s', h⟩ := (ih s₁).2 hxs
      exact ⟨s', bind_eq_ok.2 ⟨s₁, hs₁, h⟩⟩

end Python
