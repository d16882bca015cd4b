import ScottyCore.Backup.GitRuns

namespace ScottyCore
open Python Commits Routine TransitionSystem
set_option autoImplicit true

/-- Nothing is left to be committed. -/
structure GitWorld.Tidy (w : GitWorld) : Prop where
  cloned : w.clone.cloned = true
  index : w.clone.index = []
  tree : w.clone.tree = []

/-- A call that nothing on the disk stops, and that pushes over a network that is up. No other
writer pushes between the rebase and the push after it. -/
structure GitCircumstances.Online (env : GitCircumstances) : Prop where
  disk : env.disk = none
  add : env.add = none
  commit : env.commit.failure = none
  push : env.push.answer = .served
  refused : mentions "rejected" env.push.stderr = true
  rebase : env.rebase.answer = .served
  retry : env.retry.answer = .served
  quiet : env.retry.landed = []

variable {own : List String → Prop} {k : List String} {w : GitWorld} {git : GitProgram}
variable {reply : NetReply} {libs : GitLibraries} {sink : GitRepoSink} {env : GitCircumstances}

/-! ## The push -/

theorem refusedText_gitError (args : String) (h : mentions "rejected" stderr = true) :
    refusedText ("git " ++ args ++ " failed: " ++ stderr) = true := by
  have htext : mentions "rejected" ("git " ++ args ++ " failed: " ++ stderr) = true := by
    have hlower : ∀ text : String, text.toLower.toList = text.toList.map Char.toLower :=
      fun text => String.toList_map
    refine decide_eq_true ((of_decide_eq_true h).trans ?_)
    rw [hlower, hlower, String.toList_append, List.map_append]
    exact (List.suffix_append _ _).isInfix
  rw [refusedText, htext, Bool.or_true]

theorem gitPush_of_ahead (branch : String) (hserved : reply.answer = .served)
    (hcloned : w.clone.cloned = true) (h : w.remote ++ reply.landed <+: w.clone.branch) :
    gitPush branch reply w = (.ok (), { w with remote := w.clone.branch }) := by
  have hready : reply.answer ≠ .unreachable ∧ (w.land reply.landed).clone.cloned ∧
      (w.land reply.landed).remote <+: (w.land reply.landed).clone.branch := by
    rw [hserved]
    exact ⟨nofun, hcloned, h⟩
  rw [gitPush, if_pos hready, if_pos hserved]
  rfl

theorem gitPush_of_forked (branch : String) (h : ¬ w.remote ++ reply.landed <+: w.clone.branch) :
    gitPush branch reply w =
      (.error (gitError ("push origin " ++ branch) reply.stderr), w.land reply.landed) :=
  if_neg fun hready => h hready.2.2

theorem GitWorld.Tidy.not_dirty (h : w.Tidy) : ¬ w.dirty := by
  rw [GitWorld.dirty, h.index, h.tree]
  exact Bool.false_ne_true

theorem GitWorld.Tidy.not_blocked (h : w.Tidy) (commits : GitHistory) :
    ¬ w.blocked commits := by
  rw [GitWorld.blocked, h.index, h.tree]
  exact Bool.false_ne_true

theorem GitWorld.Tidy.land (h : w.Tidy) (l : GitHistory) : (w.land l).Tidy :=
  ⟨h.cloned, h.index, h.tree⟩

theorem GitWorld.Tidy.checkout (h : w.Tidy) (history : GitHistory) : (w.checkout history).Tidy :=
  ⟨h.cloned, congrArg (settle history) h.index, congrArg (settle history) h.tree⟩

/-- A rebase that is served leaves a branch that is ahead of the remote. -/
theorem gitPullRebase_of_tidy (hgit : git.Documented) (branch : String) (hw : w.Sound own)
    (htidy : w.Tidy) (hserved : reply.answer = .served) (hf : Foreign own reply.landed) :
    ∃ w', gitPullRebase git branch reply w = (.ok (), w') ∧ w'.clone.cloned = true ∧
      w'.remote <+: w'.clone.branch := by
  have hland := hw.land hf
  have htidy := htidy.land reply.landed
  have hrebased : ¬ (w.land reply.landed).clone.rebasing = true := by
    rw [hland.rebased]
    exact Bool.false_ne_true
  unfold gitPullRebase
  dsimp only
  rw [if_pos ⟨hserved, htidy.cloned, hrebased, htidy.not_dirty, htidy.not_blocked _⟩]
  split
  · rename_i result hresult
    refine ⟨_, rfl, htidy.cloned, ?_⟩
    rw [hland.checkout_branch]
    exact (hland.apart.rebased (hgit.replays hresult)).1
  · rename_i stop hstop
    obtain ⟨j, hclash⟩ := hgit.stops hstop
    exact (hland.apart.not_clash j hclash).elim

namespace GitRepoSink

/-- What the branch has reaches the remote, if need be after a rebase. -/
theorem tryPush_delivers (hgit : libs.git.Documented) (ha : env.Avoids own) (ho : env.Online) :
    Triple (fun w => w.Sound own ∧ w.Tidy) (sink.tryPush libs env)
      (fun _ w => w.remote = w.clone.branch) (fun _ => False) := by
  refine triple_returns_iff.2 fun w ⟨hw, htidy⟩ => ?_
  by_cases hahead : w.remote ++ env.push.landed <+: w.clone.branch
  · refine ⟨(), { w with remote := w.clone.branch }, ?_, rfl⟩
    simp only [tryPush, Bind.bind, attempt, gitPush_of_ahead _ ho.push htidy.cloned hahead]
    rfl
  · obtain ⟨w', hrebase, hcloned, hprefix⟩ := gitPullRebase_of_tidy hgit
      sink.branch (hw.land ha.push) (htidy.land _) ho.rebase ha.rebase
    have hretry := gitPush_of_ahead sink.branch ho.retry hcloned
      (by rwa [ho.quiet, List.append_nil])
    refine ⟨(), { w' with remote := w'.clone.branch }, ?_, rfl⟩
    have hpush : attempt (gitPush sink.branch env.push) w = (.ok (.error (gitError
        ("push origin " ++ sink.branch) env.push.stderr)), w.land env.push.landed) := by
      rw [attempt, gitPush_of_forked _ hahead]
    have hagain : attempt (do
        gitPullRebase libs.git sink.branch env.rebase
        gitPush sink.branch env.retry) (w.land env.push.landed) =
          (.ok (.ok ()), { w' with remote := w'.clone.branch }) := by
      rw [attempt, bind_of_ok hrebase, hretry]
    have hrefused := refusedText_gitError ("push origin " ++ sink.branch) ho.refused
    rw [tryPush, bind_of_ok hpush]
    simp only [gitError]
    rw [if_pos hrefused, bind_of_ok hagain]
    rfl

/-! ## The put before it -/

/-- The working tree has no other changes than those of a put of new data. -/
structure Filling (path : List String) (data : List UInt8) (w : GitWorld) : Prop where
  cloned : w.clone.cloned = true
  new : contentAt w.clone.head path ≠ some data
  only : ∀ c ∈ w.clone.tree, c.1 = path ∨ c.1 = sidecarOf path

theorem filling_writeTree (hp : p = path ∨ p = sidecarOf path) (content : Option (List UInt8)) :
    Triple (Filling path data) (writeTree p content) (fun _ => Filling path data) E :=
  triple_change fun _ hw => ⟨hw.cloned, hw.new,
    path_of_mem_overlay (P := fun q => q = path ∨ q = sidecarOf path) hw.only hp⟩

theorem filling_writeFiles (hdisk : env.disk = none) (hne : path ≠ []) :
    Triple (Filling path data) (writeFiles env path data sidecar)
      (fun _ => Filling path data) E := by
  rw [writeFiles, if_neg hne, hdisk]
  exact (filling_writeTree (.inl rfl) _).bind fun _ => filling_writeTree (.inr rfl) _

theorem filling_addFiles (hadd : env.add = none) :
    Triple (Filling path data) (addFiles env path) (fun _ => Filling path data) E := by
  have hkept : ∀ p, Triple (Filling path data) (gitAdd p) (fun _ => Filling path data) E :=
    fun p => triple_change fun _ hw => ⟨hw.cloned, hw.new, hw.only⟩
  rw [addFiles, hadd]
  exact (triple_pure fun _ => id).bind fun _ => (hkept path).bind fun _ => hkept _

/-- All that a put has changed is in the index. -/
structure Packed (own : List String → Prop) (path : List String) (data sidecar : List UInt8)
    (w : GitWorld) : Prop where
  filling : Filling path data w
  bundle : Staged own path (some data) w
  beside : Staged own (sidecarOf path) (some sidecar) w

theorem Packed.index_ne (h : Packed own path data sidecar w) : w.clone.index ≠ [] :=
  List.ne_nil_of_mem (h.bundle.index.put h.filling.new)

theorem Packed.committed (h : Packed own path data sidecar w) (id : Nat) :
    (w.committed id).Sound own ∧ (w.committed id).Tidy := by
  refine ⟨sound_commit h.bundle.sound h.filling.cloned id, h.filling.cloned, rfl, ?_⟩
  refine List.filter_eq_nil_iff.2 fun c hc => ?_
  have hcontent : ∀ {k v}, Staged own k v w → c.1 = k →
      contentAt (w.clone.head ++ [⟨id, w.clone.index⟩]) c.1 = c.2 := by
    rintro k v hs rfl
    rw [contentAt_concat, hs.index.content, (hs.tree.only c.2 hc).1]
  rw [decide_eq_true_eq, ne_eq, not_not]
  exact (h.filling.only c hc).elim (hcontent h.bundle) (hcontent h.beside)

theorem unpacked_writeFiles (hdisk : env.disk = none) (hne : path ≠ []) :
    Triple (fun w => w.Sound own ∧ Filling path data w) (writeFiles env path data sidecar)
      (fun _ w => Filling path data w ∧ Written own path (some data) w ∧
        Written own (sidecarOf path) (some sidecar) w) (fun _ => False) := by
  have hfilling : Triple (Filling path data) (writeFiles env path data sidecar)
      (fun _ => Filling path data) (fun _ => False) := filling_writeFiles hdisk hne
  refine (hfilling.and ((written_writeFiles .bundle).and (written_writeFiles .sidecar))).mono
    (fun w hw => ⟨hw.2, hw.1.tracks, hw.1.tracks⟩) (fun _ w hw => ?_) fun _ => And.left
  exact ⟨hw.1, hw.2.1.1, hw.2.2.1⟩

theorem packed_addFiles (hadd : env.add = none) (hne : path ≠ []) (hp : own path)
    (hp' : own (sidecarOf path)) :
    Triple (fun w => Filling path data w ∧ Written own path (some data) w ∧
        Written own (sidecarOf path) (some sidecar) w) (addFiles env path)
      (fun _ => Packed own path data sidecar) (fun _ => False) := by
  have hfilling : Triple (Filling path data) (addFiles env path) _ (fun _ => False) :=
    filling_addFiles hadd
  have hstaged : ∀ {k v c}, PutWrites path data sidecar k c →
      Triple (Written own k v) (addFiles env path) (fun _ => Staged own k v)
        (Tracks own k none) := staged_addFiles hne hp hp'
  refine (hfilling.and ((hstaged .bundle).and (hstaged .sidecar))).mono (fun _ => id)
    (fun _ w hw => ?_) fun _ => And.left
  exact ⟨hw.1, hw.2.1, hw.2.2⟩

theorem commitAndPush_delivers (hgit : libs.git.Documented) (ha : env.Avoids own)
    (ho : env.Online) : Triple (Packed own path data sidecar) (sink.commitAndPush libs env)
      (fun _ w => w.remote = w.clone.branch) (fun _ => False) := by
  refine Triple.bind (Q := fun b w => Packed own path data sidecar w ∧ b = false)
    (triple_look fun w hw => ⟨hw, ?_⟩) fun b => triple_of_pure fun hb => ?_
  · rw [statusEmpty, List.isEmpty_eq_false_iff.2 hw.index_ne, Bool.and_false, Bool.false_and]
  subst hb
  refine triple_ite (fun hb => (Bool.false_ne_true hb).elim) fun _ => ?_
  refine Triple.bind (Q := fun _ w => w.Sound own ∧ w.Tidy)
    (triple_returns_iff.2 fun w hw => ?_) fun _ => tryPush_delivers hgit ha ho
  have hready : ¬ (¬ w.clone.cloned ∨ w.clone.unmerged ≠ [] ∨ w.clone.index = []) := by
    rintro (hmissing | hunmerged | hindex)
    · exact hmissing hw.filling.cloned
    · exact hunmerged hw.bundle.sound.merged
    · exact hw.index_ne hindex
  refine ⟨(), w.committed env.commit.id, ?_, hw.committed env.commit.id⟩
  rw [gitCommit, ho.commit]
  exact if_neg hready

/-- A put over a network that is up brings everything that the branch has to the remote. -/
theorem put_delivers (hgit : libs.git.Documented) (ha : env.Avoids own) (ho : env.Online)
    (hpath : sink.bundlePath libs blob = .ok path) (hne : path ≠ []) (hp : own path)
    (hp' : own (sidecarOf path)) :
    Triple (fun w => w.Sound own ∧ w.Tidy ∧ w.clone.initialized = true ∧
      contentAt w.clone.branch path ≠ some blob.data) (sink.put libs env blob)
      (fun _ w => w.remote = w.clone.branch) (fun _ => False) := by
  refine Triple.bind (triple_ensureReady_of_initialized fun _ hw => hw.2.2.1) fun _ => ?_
  obtain ⟨rel, hrel, hkey⟩ : ∃ rel, sink.pathOf libs blob = .ok rel ∧
      sink.keyOf rel = .ok path := by
    rw [bundlePath] at hpath
    cases hrel : sink.pathOf libs blob with
    | error e =>
      rw [hrel] at hpath
      cases hpath
    | ok rel =>
      rw [hrel] at hpath
      exact ⟨rel, rfl, hpath⟩
  rw [hrel]
  refine Triple.bind (triple_pure (Q := fun a w => (w.Sound own ∧ Filling path blob.data w) ∧
    a = rel) fun w hw => ⟨⟨hw.1, hw.2.1.cloned, ?_, ?_⟩, rfl⟩) fun a => triple_of_pure fun heq => ?_
  · rw [hw.1.attached]
    exact hw.2.2.2
  · rw [hw.2.1.tree]
    exact List.forall_mem_nil _
  subst heq
  rw [hkey]
  refine Triple.bind (triple_pure (Q := fun a w => (w.Sound own ∧ Filling path blob.data w) ∧
    a = path) fun w hw => ⟨hw, rfl⟩) fun a => triple_of_pure fun heq => ?_
  subst heq
  exact Triple.bind (unpacked_writeFiles ho.disk hne) fun _ =>
    Triple.bind (packed_addFiles ho.add hne hp hp') fun _ =>
      Triple.bind (commitAndPush_delivers hgit ha ho) fun _ => triple_pure fun _ => id

end GitRepoSink

/-! ## Nothing is lost to an outage -/

end ScottyCore
