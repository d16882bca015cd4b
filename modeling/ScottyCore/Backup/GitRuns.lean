import ScottyCore.Backup.GitCalls
import ScottyCore.Backup.LocalPut

namespace ScottyCore
open Python Commits Routine TransitionSystem
set_option autoImplicit true

/-- A clone that stands on its branch, from which the remote has parted by commits that change none
of the sink's own paths, while the branch has commits that change only these. -/
structure GitWorld.Sound (own : List String → Prop) (w : GitWorld) : Prop where
  attached : w.clone.head = w.clone.branch
  rebased : w.clone.rebasing = false
  merged : w.clone.unmerged = []
  missing : w.clone.cloned = false → w.clone.branch = []
  index : ∀ c ∈ w.clone.index, own c.1
  apart : Apart own w.clone.branch w.remote

/-- The branch gives a path a content, and neither the index nor the working tree has another. -/
structure Held (k : List String) (c : Option (List UInt8)) (clone : GitClone) : Prop where
  cloned : clone.cloned = true
  content : contentAt clone.branch k = c
  index : Clean clone.index k
  tree : Clean clone.tree k

/-- What is so between the calls, with the content of a path where that is known. -/
structure Tracks (own : List String → Prop) (k : List String)
    (known : Option (Option (List UInt8))) (w : GitWorld) : Prop where
  sound : w.Sound own
  held : ∀ c ∈ known, Held k c w.clone

variable {own : List String → Prop} {k : List String} {known : Option (Option (List UInt8))}
variable {w : GitWorld} {git : GitProgram} {reply : NetReply} {l history : GitHistory}

theorem GitWorld.Sound.tracks (h : w.Sound own) : Tracks own k none w := ⟨h, nofun⟩

theorem Tracks.forget (h : Tracks own k known w) : Tracks own k none w := h.sound.tracks

/-! ## Commands of git -/

namespace GitWorld.Sound

theorem land (h : w.Sound own) (hl : Foreign own l) : (w.land l).Sound own :=
  ⟨h.attached, h.rebased, h.merged, h.missing, h.index, h.apart.append_right hl⟩

theorem pushed (h : w.Sound own) : { w with remote := w.clone.branch }.Sound own :=
  ⟨h.attached, h.rebased, h.merged, h.missing, h.index, .same w.clone.branch⟩

theorem checkout_branch (h : w.Sound own) (history : GitHistory) :
    (w.checkout history).clone.branch = history := by
  rw [GitWorld.checkout, h.rebased]
  rfl

theorem checkout (h : w.Sound own) (hcloned : w.clone.cloned = true)
    (ha : Apart own history w.remote) : (w.checkout history).Sound own := by
  have hbranch := h.checkout_branch history
  refine ⟨hbranch.symm, h.rebased, h.merged, fun hmissing => ?_, fun c hc => ?_, ?_⟩
  · cases hcloned.symm.trans hmissing
  · exact h.index c (List.mem_of_mem_filter hc)
  · rw [hbranch]
    exact ha

end GitWorld.Sound

theorem Held.checkout (h : Held k c w.clone) (hw : w.Sound own)
    (hcontent : contentAt history k = contentAt w.clone.branch k) :
    Held k c (w.checkout history).clone := by
  refine ⟨h.cloned, ?_, h.index.settle _, h.tree.settle _⟩
  rw [hw.checkout_branch, hcontent, h.content]

theorem Tracks.land (h : Tracks own k known w) (hl : Foreign own l) :
    Tracks own k known (w.land l) := ⟨h.sound.land hl, h.held⟩

theorem Tracks.checkout (h : Tracks own k known w) (hcloned : w.clone.cloned = true)
    (ha : Apart own history w.remote)
    (hcontent : contentAt history k = contentAt w.clone.branch k) :
    Tracks own k known (w.checkout history) :=
  ⟨h.sound.checkout hcloned ha, fun c hc => (h.held c hc).checkout h.sound hcontent⟩

theorem tracks_gitPush (branch : String) (hf : Foreign own reply.landed) :
    Keeps (Tracks own k known) (gitPush branch reply) := by
  refine keeps_iff.2 fun w hw => ?_
  have hland := hw.land hf
  unfold gitPush
  dsimp only
  split
  · exact ⟨hland.sound.pushed, hland.held⟩
  · exact hland

theorem tracks_gitPullFf (branch : String) (hf : Foreign own reply.landed) (hk : own k) :
    Keeps (Tracks own k known) (gitPullFf branch reply) := by
  refine keeps_iff.2 fun w hw => ?_
  have hland := hw.land hf
  unfold gitPullFf
  dsimp only
  split
  · rename_i hready
    split
    · exact hland
    · split
      · rename_i hbehind
        have hprefix := hbehind.1
        rw [hland.sound.attached] at hprefix
        exact hland.checkout hready.2.1 (.same _) (hland.sound.apart.content_of_prefix hprefix hk)
      · exact hland
  · exact hland

theorem tracks_gitPullRebase (hgit : git.Documented) (branch : String)
    (hf : Foreign own reply.landed) (hk : own k) :
    Keeps (Tracks own k known) (gitPullRebase git branch reply) := by
  refine keeps_iff.2 fun w hw => ?_
  have hland := hw.land hf
  have hapart := hland.sound.apart
  unfold gitPullRebase
  dsimp only
  split
  · rename_i hready
    split
    · rename_i result hresult
      obtain ⟨_, ha, hcontent⟩ := hapart.rebased (hgit.replays hresult)
      exact hland.checkout hready.2.1 ha (hcontent k hk)
    · rename_i stop hstop
      -- the two sides have no path in common
      obtain ⟨j, hclash⟩ := hgit.stops hstop
      exact (hapart.not_clash j hclash).elim
  · exact hland

theorem within_commit {changes : GitChanges} (h : ∀ c ∈ changes, own c.1) (id : Nat) :
    Within own ([⟨id, changes⟩] : GitHistory) := by
  rintro k ⟨v, hv⟩
  rw [allChanges, List.flatMap_singleton] at hv
  exact h (k, v) hv

theorem sound_commit (hw : w.Sound own) (hcloned : w.clone.cloned = true) (id : Nat) :
    (w.committed id).Sound own := by
  have hafter : (w.checkout (w.clone.head ++ [⟨id, w.clone.index⟩])).Sound own := by
    refine hw.checkout hcloned ?_
    rw [hw.attached]
    exact hw.apart.append_left (within_commit hw.index id)
  exact ⟨hafter.attached, hafter.rebased, hafter.merged, hafter.missing, nofun, hafter.apart⟩

theorem cloned_of_commit (h : ¬ (¬ w.clone.cloned ∨ w.clone.unmerged ≠ [] ∨ w.clone.index = [])) :
    w.clone.cloned = true := by
  by_contra hmissing
  exact h (.inl hmissing)

theorem tracks_gitCommit (reply : CommitReply) :
    Keeps (Tracks own k known) (gitCommit reply) := by
  refine keeps_iff.2 fun w hw => ?_
  unfold gitCommit
  split
  · exact hw
  · split
    · exact hw
    · rename_i hready
      refine ⟨sound_commit hw.sound (cloned_of_commit hready) reply.id, fun c hc => ?_⟩
      have hheld := hw.held c hc
      have hbranch := hw.sound.checkout_branch (w.clone.head ++ [⟨reply.id, w.clone.index⟩])
      refine ⟨hheld.cloned, (congrArg (contentAt · k) hbranch).trans ?_, nofun,
        hheld.tree.settle _⟩
      rw [contentAt_concat, contentOver_of_clean hheld.index, hw.sound.attached, hheld.content]

theorem GitWorld.Sound.writeTree (hw : w.Sound own) (path : List String)
    (content : Option (List UInt8)) : (writeTree path content w).2.Sound own :=
  ⟨hw.attached, hw.rebased, hw.merged, hw.missing, hw.index, hw.apart⟩

theorem path_of_mem_overlay {P : List String → Prop} {changes : GitChanges}
    (h : ∀ c ∈ changes, P c.1) (hp : P path) : ∀ c ∈ overlay history path v changes, P c.1 := by
  rintro ⟨j, u⟩ hc
  by_cases hj : j = path
  · subst hj
    exact hp
  · exact h (j, u) ((mem_overlay_of_ne hj v u).1 hc)

theorem GitWorld.Sound.gitAdd (hw : w.Sound own) (hp : own path) : (gitAdd path w).2.Sound own := by
  refine ⟨hw.attached, hw.rebased, ?_, hw.missing, path_of_mem_overlay hw.index hp, hw.apart⟩
  exact (congrArg (List.filter _) hw.merged).trans rfl

theorem GitWorld.Sound.removeTracked (hw : w.Sound own) (hp : own path) :
    (removeTracked path w).Sound own := by
  refine ⟨hw.attached, hw.rebased, ?_, hw.missing, path_of_mem_overlay hw.index hp, hw.apart⟩
  exact (congrArg (List.filter _) hw.merged).trans rfl

theorem tracks_writeTree (hne : k ≠ path) (content : Option (List UInt8)) :
    Keeps (Tracks own k known) (writeTree path content) := by
  refine keeps_iff.2 fun w hw => ⟨hw.sound.writeTree path content, fun c hc => ?_⟩
  have hheld := hw.held c hc
  exact ⟨hheld.cloned, hheld.content, hheld.index, hheld.tree.overlay hne _⟩

theorem tracks_gitAdd (hp : own path) (hne : k ≠ path) :
    Keeps (Tracks own k known) (gitAdd path) := by
  refine keeps_iff.2 fun w hw => ⟨hw.sound.gitAdd hp, fun c hc => ?_⟩
  have hheld := hw.held c hc
  exact ⟨hheld.cloned, hheld.content, hheld.index.overlay hne _, hheld.tree⟩

theorem Tracks.removeTracked (h : Tracks own k known w) (hp : own path) (hne : k ≠ path) :
    Tracks own k known (removeTracked path w) := by
  refine ⟨h.sound.removeTracked hp, fun c hc => ?_⟩
  have hheld := h.held c hc
  exact ⟨hheld.cloned, hheld.content, hheld.index.overlay hne _, hheld.tree.overlay hne _⟩

/-! ## Parts of the calls -/

/-- While a call runs, other writers push no commits that change the sink's own paths. These are
also those of the branch that it starts from. -/
structure GitCircumstances.Avoids (env : GitCircumstances) (own : List String → Prop) : Prop where
  clone : Foreign own env.clone.landed
  mainline : Within own env.mainline
  attributesPush : Foreign own env.attributesPush.landed
  pull : Foreign own env.pull.landed
  push : Foreign own env.push.landed
  rebase : Foreign own env.rebase.landed
  retry : Foreign own env.retry.landed
  attributes : env.attributes = none ∨ own [".gitattributes"]

namespace GitRepoSink

variable {libs : GitLibraries} {sink : GitRepoSink} {env : GitCircumstances}

/-- A new clone, in which nothing is known yet. -/
theorem sound_madeClone (ha : Apart own h remote) : GitWorld.Sound own
    ⟨{ GitClone.missing with cloned := true, branch := h, head := h }, remote⟩ :=
  ⟨rfl, rfl, rfl, nofun, nofun, ha⟩

theorem tracks_makeClone (ha : env.Avoids own) :
    Triple (fun w => Tracks own k known w ∧ w.clone.cloned = false) (makeClone env)
      (fun _ => Tracks own k known) (Tracks own k known) := by
  refine triple_iff.2 fun w ⟨hw, hmissing⟩ => ?_
  have hland := hw.land ha.clone
  have hknown : known = none := by
    cases known with
    | none => rfl
    | some c => cases hmissing.symm.trans (hw.held c rfl).cloned
  subst hknown
  have hapart := hland.sound.apart
  rw [hland.sound.missing hmissing] at hapart
  unfold makeClone
  dsimp only
  split
  · split
    · rename_i hempty
      rw [hempty] at hapart ⊢
      exact (sound_madeClone (hapart.append_left ha.mainline)).tracks
    · exact (sound_madeClone (.same _)).tracks
  · split
    · exact (sound_madeClone hapart).tracks
    · exact hland

/-- What is known of a path is kept by calls on others. -/
theorem keptBy_tracks (hgit : libs.git.Documented) (ha : env.Avoids own) (hk : own k)
    (hne : k ≠ [".gitattributes"]) :
    KeptBy libs sink env (fun path => own path ∧ k ≠ path) (Tracks own k known) where
  push := tracks_gitPush sink.branch ha.push
  retry := tracks_gitPush sink.branch ha.retry
  attributesPush := tracks_gitPush sink.branch ha.attributesPush
  pull := tracks_gitPullFf sink.branch ha.pull hk
  rebase := tracks_gitPullRebase hgit sink.branch ha.rebase hk
  clone := tracks_makeClone ha
  commit := tracks_gitCommit
  write _ content hp := tracks_writeTree hp.2 content
  add _ hp := tracks_gitAdd hp.1 hp.2
  remove _ _ hp hw := hw.removeTracked hp.1 hp.2
  ready _ hw := ⟨⟨hw.sound.attached, hw.sound.rebased, hw.sound.merged, hw.sound.missing,
    hw.sound.index, hw.sound.apart⟩, fun c hc =>
    ⟨(hw.held c hc).cloned, (hw.held c hc).content, (hw.held c hc).index, (hw.held c hc).tree⟩⟩
  attributes := ha.attributes.imp_right fun h => ⟨h, hne⟩

/-- The clone is kept sound by calls that change the sink's own paths. -/
theorem keptBy_sound (hgit : libs.git.Documented) (ha : env.Avoids own) (hk : own k) :
    KeptBy libs sink env own (Tracks own k none) where
  push := tracks_gitPush sink.branch ha.push
  retry := tracks_gitPush sink.branch ha.retry
  attributesPush := tracks_gitPush sink.branch ha.attributesPush
  pull := tracks_gitPullFf sink.branch ha.pull hk
  rebase := tracks_gitPullRebase hgit sink.branch ha.rebase hk
  clone := tracks_makeClone ha
  commit := tracks_gitCommit
  write path content _ := keeps_iff.2 fun _ hw => (hw.sound.writeTree path content).tracks
  add _ hp := keeps_iff.2 fun _ hw => (hw.sound.gitAdd hp).tracks
  remove _ _ hp hw := (hw.sound.removeTracked hp).tracks
  ready _ hw := ⟨⟨hw.sound.attached, hw.sound.rebased, hw.sound.merged, hw.sound.missing,
    hw.sound.index, hw.sound.apart⟩, nofun⟩
  attributes := ha.attributes

end GitRepoSink

/-! ## A path that a call changes -/

namespace GitRepoSink

variable {libs : GitLibraries} {sink : GitRepoSink} {env : GitCircumstances}
variable {v : Option (List UInt8)}

/-- The working tree has a content for a path. -/
structure Written (own : List String → Prop) (k : List String) (v : Option (List UInt8))
    (w : GitWorld) : Prop where
  sound : w.Sound own
  tree : Puts w.clone.head w.clone.tree k v

/-- The index has it too. -/
structure Staged (own : List String → Prop) (k : List String) (v : Option (List UInt8))
    (w : GitWorld) : Prop where
  sound : w.Sound own
  tree : Puts w.clone.head w.clone.tree k v
  index : Puts w.clone.head w.clone.index k v

theorem written_writeTree : Triple (Tracks own k none) (writeTree k v)
    (fun _ => Written own k v) (Tracks own k none) :=
  triple_change fun _ hw => ⟨hw.sound.writeTree k v, puts_overlay _ k v _⟩

theorem written_writeTree_of_ne (hne : k ≠ path) (content : Option (List UInt8)) :
    Keeps (Written own k v) (writeTree path content) :=
  keeps_iff.2 fun _ hw => ⟨hw.sound.writeTree path content, hw.tree.overlay hne _⟩

theorem written_gitAdd (hp : own path) : Keeps (Written own k v) (gitAdd path) :=
  keeps_iff.2 fun _ hw => ⟨hw.sound.gitAdd hp, hw.tree⟩

theorem staged_gitAdd (hk : own k) : Triple (Written own k v) (gitAdd k)
    (fun _ => Staged own k v) (Tracks own k none) := by
  refine triple_change fun w hw => ⟨hw.sound.gitAdd hk, hw.tree, ?_⟩
  have hfile : w.fileAt k = v := hw.tree.content
  rw [← hfile]
  exact puts_overlay _ k _ _

theorem staged_gitAdd_of_ne (hp : own path) (hne : k ≠ path) :
    Keeps (Staged own k v) (gitAdd path) :=
  keeps_iff.2 fun _ hw => ⟨hw.sound.gitAdd hp, hw.tree, hw.index.overlay hne _⟩

theorem staged_removeTracked (hw : w.Sound own) (hk : own k) :
    Staged own k none (removeTracked k w) :=
  ⟨hw.removeTracked hk, puts_overlay _ k none _, puts_overlay _ k none _⟩

theorem staged_removeTracked_of_ne (hw : Staged own k v w) (hp : own path) (hne : k ≠ path) :
    Staged own k v (removeTracked path w) :=
  ⟨hw.sound.removeTracked hp, hw.tree.overlay hne _, hw.index.overlay hne _⟩

theorem staged_gitRm (hk : own k) (hpaths : ∀ path ∈ paths, own path ∧ k ≠ path) :
    Triple (Tracks own k none) (gitRm (k :: paths)) (fun _ => Staged own k none)
      (Tracks own k none) := by
  have hfold : ∀ w, Staged own k none w →
      Staged own k none (paths.foldl (fun w path => removeTracked path w) w) := by
    induction paths with
    | nil => exact fun w hw => hw
    | cons path paths ih =>
      intro w hw
      obtain ⟨hp, hne⟩ := hpaths path List.mem_cons_self
      exact ih (fun p hp => hpaths p (List.mem_cons_of_mem _ hp)) _
        (staged_removeTracked_of_ne hw hp hne)
  intro w hw
  unfold gitRm
  split
  · refine ⟨fun u w' heq => ?_, fun e w' heq => ?_⟩
    · cases heq
      exact hfold _ (staged_removeTracked hw.sound hk)
    · cases heq
  · refine ⟨fun u w' heq => ?_, fun e w' heq => ?_⟩
    · cases heq
    · cases heq
      exact hw

/-- What is staged is committed. -/
theorem tracks_commit_of_staged (reply : CommitReply) : Triple (Staged own k v) (gitCommit reply)
    (fun _ => Tracks own k (some v)) (Tracks own k none) := by
  intro w hw
  unfold gitCommit
  split
  · refine ⟨fun u w' heq => ?_, fun e w' heq => ?_⟩
    · cases heq
    · cases heq
      exact hw.sound.tracks
  · split
    · refine ⟨fun u w' heq => ?_, fun e w' heq => ?_⟩
      · cases heq
      · cases heq
        exact hw.sound.tracks
    · rename_i hready
      have hcloned := cloned_of_commit hready
      have hcontent := (contentAt_concat w.clone.head ⟨reply.id, w.clone.index⟩ k).trans
        hw.index.content
      have hbranch := hw.sound.checkout_branch (w.clone.head ++ [⟨reply.id, w.clone.index⟩])
      refine ⟨fun u w' heq => ?_, fun e w' heq => ?_⟩
      · cases heq
        refine ⟨sound_commit hw.sound hcloned reply.id, ?_⟩
        rintro c ⟨⟩
        exact ⟨hcloned, (congrArg (contentAt · k) hbranch).trans hcontent, nofun,
          hw.tree.clean_settle hcontent⟩
      · cases heq

theorem tracks_commitAndPush_of_staged (hgit : libs.git.Documented) (ha : env.Avoids own)
    (hk : own k) (hne : k ≠ [".gitattributes"]) :
    Triple (Staged own k v) (sink.commitAndPush libs env) (fun _ => Tracks own k (some v))
      (Tracks own k none) := by
  refine Triple.bind (Q := fun b w => Staged own k v w ∧ statusEmpty env w = b)
    (triple_look fun w hw => ⟨hw, rfl⟩) fun b => ?_
  refine triple_ite (fun hb => triple_pure fun w hw => ?_) fun _ => ?_
  · -- nothing to commit: the branch has the content already
    obtain ⟨hs, hstatus⟩ := hw
    rw [hb] at hstatus
    simp only [statusEmpty, Bool.and_eq_true, List.isEmpty_iff] at hstatus
    obtain ⟨⟨⟨hcloned, -⟩, hindex⟩, -⟩ := hstatus
    have hcontent : contentAt w.clone.head k = v := by
      have hover := hs.index.content
      have hnone : Clean ([] : GitChanges) k := nofun
      rwa [hindex, contentOver_of_clean hnone] at hover
    refine ⟨hs.sound, ?_⟩
    rintro c ⟨⟩
    refine ⟨hcloned, ?_, hs.index.clean hcontent, hs.tree.clean hcontent⟩
    rw [← hs.sound.attached, hcontent]
  · have hkept : KeptBy libs sink env _ (Tracks own k (some v)) := keptBy_tracks hgit ha hk hne
    refine Triple.bind (Q := fun _ => Tracks own k (some v)) ?_ fun _ =>
      hkept.keeps_tryPush.mono (fun _ => id) (fun _ _ => id) fun _ => Tracks.forget
    exact (tracks_commit_of_staged env.commit).mono (fun _ => And.left) (fun _ _ => id) fun _ => id

/-! ## The calls -/

theorem sidecarOf_ne (hne : path ≠ []) : sidecarOf path ≠ path := by
  obtain ⟨dirs, name, rfl⟩ := (List.eq_nil_or_concat' path).resolve_left hne
  rw [sidecarOf, sibling_concat]
  intro h
  have hname := List.singleton_inj.1 (List.append_cancel_left h)
  exact absurd (congrArg String.length hname) (by simp)

/-- What a put writes to a path. -/
inductive PutWrites (path : List String) (data sidecar : List UInt8) :
    List String → List UInt8 → Prop where
  | bundle : PutWrites path data sidecar path data
  | sidecar : PutWrites path data sidecar (sidecarOf path) sidecar

theorem written_writeFiles (h : PutWrites path data sidecar k content) :
    Triple (Tracks own k none) (writeFiles env path data sidecar)
      (fun _ w => Written own k (some content) w ∧ path ≠ []) (Tracks own k none) := by
  have hother : ∀ (p : List String) (c : Option (List UInt8)),
      Keeps (Tracks own k none) (writeTree p c) := fun p c =>
    keeps_iff.2 fun w hw => (hw.sound.writeTree p c).tracks
  refine triple_ite (fun _ => triple_raise fun _ => id) fun hne => ?_
  cases env.disk with
  | none =>
    refine Triple.mono ?_ (fun _ => id) (fun _ _ hw => ⟨hw, hne⟩) fun _ => id
    cases h with
    | bundle =>
      refine Triple.bind written_writeTree fun _ => ?_
      exact (written_writeTree_of_ne (Ne.symm (sidecarOf_ne hne)) _).mono (fun _ => id)
        (fun _ _ => id) fun _ hw => hw.sound.tracks
    | sidecar => exact Triple.bind (hother path _) fun _ => written_writeTree
  | some failure =>
    obtain ⟨replaced, e⟩ := failure
    cases replaced with
    | true => exact Triple.bind (hother path _) fun _ => triple_raise fun _ => id
    | false => exact triple_raise fun _ => id

theorem staged_addFiles (hne : path ≠ []) (hp : own path) (hp' : own (sidecarOf path))
    (h : PutWrites path data sidecar k content) :
    Triple (Written own k v) (addFiles env path) (fun _ => Staged own k v)
      (Tracks own k none) := by
  refine Triple.bind (Q := fun _ => Written own k v)
    (triple_check _ (fun _ => id) fun _ hw => hw.sound.tracks) fun _ => ?_
  cases h with
  | bundle =>
    refine Triple.bind (staged_gitAdd hp) fun _ => ?_
    exact (staged_gitAdd_of_ne hp' (Ne.symm (sidecarOf_ne hne))).mono (fun _ => id)
      (fun _ _ => id) fun _ hw => hw.sound.tracks
  | sidecar =>
    refine Triple.bind (Q := fun _ => Written own (sidecarOf path) v) ?_ fun _ =>
      staged_gitAdd hp'
    exact (written_gitAdd hp).mono (fun _ => id) (fun _ _ => id) fun _ hw => hw.sound.tracks

theorem tracks_put_of_bundle (hgit : libs.git.Documented) (ha : env.Avoids own) (hk : own k)
    (hne : k ≠ [".gitattributes"]) (hpath : sink.bundlePath libs blob = .ok path)
    (hp : own path) (hp' : own (sidecarOf path))
    (h : PutWrites path blob.data (sidecarBytes libs.sink blob) k content) :
    Triple (Tracks own k none) (sink.put libs env blob)
      (fun _ => Tracks own k (some (some content))) (Tracks own k none) := by
  have hkept : KeptBy libs sink env _ (Tracks own k none) := keptBy_sound hgit ha hk
  refine Triple.bind hkept.keeps_ensureReady fun _ => ?_
  refine Triple.bind (triple_liftExcept _) fun rel => triple_of_pure fun hrel => ?_
  refine Triple.bind (triple_liftExcept _) fun path' => triple_of_pure fun hpath' => ?_
  have heq : path' = path := by
    rw [bundlePath, hrel] at hpath
    exact Except.ok.inj (hpath'.symm.trans hpath)
  subst heq
  refine Triple.bind (written_writeFiles h) fun _ => triple_of_pure fun hnonempty => ?_
  refine Triple.bind (staged_addFiles hnonempty hp hp' h) fun _ => ?_
  exact Triple.bind (tracks_commitAndPush_of_staged hgit ha hk hne) fun _ => triple_pure fun _ => id

theorem staged_removeFiles (hne : k ≠ []) (hk : own k) (hk' : own (sidecarOf k)) :
    Triple (Tracks own k none) (removeFiles k) (fun _ => Staged own k none)
      (Tracks own k none) := by
  refine Triple.bind (Q := fun paths w => Tracks own k none w ∧
    (paths = [k] ∨ paths = [k, sidecarOf k])) (triple_look fun w hw => ⟨hw, ?_⟩) fun paths => ?_
  · split
    · exact .inr rfl
    · exact .inl rfl
  · refine triple_of_pure fun hpaths => ?_
    rcases hpaths with rfl | rfl
    · exact staged_gitRm hk nofun
    · exact staged_gitRm hk (List.forall_mem_singleton.2 ⟨hk', Ne.symm (sidecarOf_ne hne)⟩)

theorem tracks_delete_of_bundle (hgit : libs.git.Documented) (ha : env.Avoids own) (hk : own k)
    (hk' : own (sidecarOf k)) (hne : k ≠ [".gitattributes"]) (hnonempty : k ≠ [])
    (hpath : sink.keyOf locator = .ok k) :
    Triple (Tracks own k none) (sink.delete libs env locator)
      (fun _ => Tracks own k (some none)) (Tracks own k none) := by
  have hkept : KeptBy libs sink env _ (Tracks own k none) := keptBy_sound hgit ha hk
  refine Triple.bind hkept.keeps_ensureReady fun _ => Triple.bind hkept.keeps_pull fun _ => ?_
  refine Triple.bind (triple_resolve locator) fun path => triple_of_pure fun hpath' => ?_
  cases hpath.symm.trans hpath'
  exact Triple.bind (staged_removeFiles hnonempty hk hk') fun _ =>
    tracks_commitAndPush_of_staged hgit ha hk hne

end GitRepoSink

/-! ## Runs -/

/-- What happens to a clone: calls of the sink, with how they ended, and other processes with a
sink of their own over it. -/
inductive GitEvent where
  | put (blob : BackupBlob (List UInt8)) (env : GitCircumstances) (returned : Bool)
  | delete (locator : String) (env : GitCircumstances) (returned : Bool)
  | get (locator : String) (env : GitCircumstances)
  | list (env : GitCircumstances)
  | restart

def returns (result : Except Exc α) : Bool :=
  match result with
  | .ok _ => true
  | .error _ => false

inductive GitStep (libs : GitLibraries) (sink : GitRepoSink) :
    GitWorld → GitEvent → GitWorld → Prop where
  | put : GitStep libs sink s (.put blob env (returns (sink.put libs env blob s).1))
      (sink.put libs env blob s).2
  | delete : GitStep libs sink s (.delete locator env (returns (sink.delete libs env locator s).1))
      (sink.delete libs env locator s).2
  | get : GitStep libs sink s (.get locator env) (sink.get env locator s).2
  | list : GitStep libs sink s (.list env) (sink.refresh env s).2
  | restart : GitStep libs sink s .restart { s with clone.initialized := false }

/-- What the end of a call tells of a path: its content, or that it is not known, or nothing. -/
def GitEvent.tells (libs : GitLibraries) (sink : GitRepoSink) (k : List String) :
    GitEvent → Option (Option (Option (List UInt8)))
  | .put blob _ returned =>
    match sink.bundlePath libs blob with
    | .ok path =>
      if k = path then some (if returned then some (some blob.data) else none)
      else if k = GitRepoSink.sidecarOf path then
        some (if returned then some (some (sidecarBytes libs.sink blob)) else none)
      else none
    | .error _ => none
  | .delete locator _ returned =>
    match sink.keyOf locator with
    | .ok path =>
      if k = path then some (if returned then some none else none)
      else if k = GitRepoSink.sidecarOf path then some none
      else none
    | .error _ => none
  | .get _ _ | .list _ | .restart => none

/-- The content that a path was last reported to have, unless a call on it has raised since. -/
def reported (libs : GitLibraries) (sink : GitRepoSink) (events : List GitEvent)
    (k : List String) : Option (Option (List UInt8)) :=
  events.foldl (fun known e => (e.tells libs sink k).getD known) none

/-- A call changes only own paths, and other writers change none of them while it runs. -/
def GitEvent.Respects (libs : GitLibraries) (sink : GitRepoSink) (own : List String → Prop) :
    GitEvent → Prop
  | .put blob env _ => env.Avoids own ∧ ∀ path, sink.bundlePath libs blob = .ok path →
      own path ∧ own (GitRepoSink.sidecarOf path)
  | .delete locator env _ => env.Avoids own ∧ ∀ path, sink.keyOf locator = .ok path →
      own path ∧ own (GitRepoSink.sidecarOf path)
  | .get _ env | .list env => env.Avoids own
  | .restart => True

/-- A path of a file that the sink does not manage by itself. -/
def SnapshotPath (k : List String) : Prop := k ≠ [] ∧ k ≠ [".gitattributes"]

section
variable {libs : GitLibraries} {sink : GitRepoSink} {env : GitCircumstances}
open GitRepoSink

/-- After a call of which either end leaves something. -/
theorem Tracks.after {x : GitRoutine α} (ends : Bool → Option (Option (List UInt8)))
    (h : Triple (Tracks own k none) x (fun _ => Tracks own k (ends true))
      (Tracks own k (ends false))) (hw : Tracks own k known w) :
    Tracks own k (ends (returns (x w).1)) (x w).2 := by
  obtain ⟨hok, herror⟩ := h w hw.forget
  rcases hxw : x w with ⟨e | a, w'⟩
  · exact herror e w' hxw
  · exact hok a w' hxw

theorem tracks_step (hgit : libs.git.Documented) (hk : own k) (hpath : SnapshotPath k)
    (hstep : GitStep libs sink w e w') (ha : e.Respects libs sink own)
    (hw : Tracks own k known w) : Tracks own k ((e.tells libs sink k).getD known) w' := by
  cases hstep with
  | get => exact keeps_iff.1 ((keptBy_tracks hgit ha hk hpath.2).keeps_get _) w hw
  | list => exact keeps_iff.1 (keptBy_tracks hgit ha hk hpath.2).keeps_refresh w hw
  | restart =>
    refine ⟨⟨hw.sound.attached, hw.sound.rebased, hw.sound.merged, hw.sound.missing,
      hw.sound.index, hw.sound.apart⟩, fun c hc => ?_⟩
    have hheld := hw.held c hc
    exact ⟨hheld.cloned, hheld.content, hheld.index, hheld.tree⟩
  | put =>
    rename_i blob env
    obtain ⟨ha, hown⟩ := ha
    have hkept : KeptBy libs sink env _ (Tracks own k known) := keptBy_tracks hgit ha hk hpath.2
    rw [GitEvent.tells]
    split
    · rename_i path hbundle
      obtain ⟨hp, hp'⟩ := hown path hbundle
      have hput : ∀ content, PutWrites path blob.data (sidecarBytes libs.sink blob) k content →
          Triple (Tracks own k none) (sink.put libs env blob)
            (fun _ => Tracks own k (some (some content))) (Tracks own k none) := fun _ h =>
        tracks_put_of_bundle hgit ha hk hpath.2 hbundle hp hp' h
      split
      · rename_i heq
        subst heq
        exact hw.after (fun b => if b then some (some blob.data) else none) (hput _ .bundle)
      · split
        · rename_i heq
          subst heq
          exact hw.after (fun b => if b then some (some (sidecarBytes libs.sink blob)) else none)
            (hput _ .sidecar)
        · rename_i hne hne'
          refine keeps_iff.1 (hkept.keeps_put fun path' hpath' => ?_) w hw
          cases hbundle.symm.trans hpath'
          exact ⟨⟨hp, hne⟩, hp', hne'⟩
    · rename_i e herror
      refine keeps_iff.1 (hkept.keeps_put fun path hpath => ?_) w hw
      cases herror.symm.trans hpath
  | delete =>
    rename_i locator env
    obtain ⟨ha, hown⟩ := ha
    have hkept : KeptBy libs sink env _ (Tracks own k known) := keptBy_tracks hgit ha hk hpath.2
    rw [GitEvent.tells]
    split
    · rename_i path hkey
      obtain ⟨hp, hp'⟩ := hown path hkey
      split
      · rename_i heq
        subst heq
        exact hw.after (fun b => if b then some none else none)
          (tracks_delete_of_bundle hgit ha hk hp' hpath.2 hpath.1 hkey)
      · split
        · exact keeps_iff.1 ((keptBy_sound hgit ha hk).keeps_delete hown) w hw.forget
        · rename_i hne hne'
          refine keeps_iff.1 (hkept.keeps_delete fun path' hpath' => ?_) w hw
          cases hkey.symm.trans hpath'
          exact ⟨⟨hp, hne⟩, hp', hne'⟩
    · rename_i e herror
      refine keeps_iff.1 (hkept.keeps_delete fun path hpath => ?_) w hw
      cases herror.symm.trans hpath

theorem reported_concat (events : List GitEvent) (e : GitEvent) (k : List String) :
    reported libs sink (events ++ [e]) k =
      (e.tells libs sink k).getD (reported libs sink events k) := by
  rw [reported, List.foldl_append, ← reported]
  rfl

/-- One of the sink's own paths has, after every run, the content last reported. -/
theorem tracks_run (hgit : libs.git.Documented) (hk : own k) (hpath : SnapshotPath k)
    (hrun : Run (GitStep libs sink) w events w') (ha : ∀ e ∈ events, e.Respects libs sink own)
    (hw : w.Sound own) : Tracks own k (reported libs sink events k) w' := by
  induction hrun with
  | nil => exact hw.tracks
  | snoc _ hstep ih =>
    rename_i events t e u hbefore
    have hevents := ih fun e he => ha e (List.mem_append_left _ he)
    rw [reported_concat]
    exact tracks_step hgit hk hpath hstep
      (ha e (List.mem_append_right _ List.mem_cons_self)) hevents

/-! ## Snapshots are kept -/

theorem Tracks.fileAt (h : Tracks own k (some c) w) : w.fileAt k = c := by
  have hheld := h.held c rfl
  rw [GitWorld.fileAt, contentOver_of_clean hheld.tree, h.sound.attached, hheld.content]

theorem triple_ensureReady_of_initialized {P : GitWorld → Prop}
    (h : ∀ w, P w → w.clone.initialized = true) :
    Triple P (sink.ensureReady env) (fun _ => P) E := by
  refine Triple.bind (Q := fun b w => P w ∧ b = true) (triple_look fun w hw => ⟨hw, h w hw⟩)
    fun b => triple_of_pure fun hb => ?_
  exact triple_ite (fun _ => triple_pure fun _ => id) fun hb' => (hb' hb).elim

theorem get_of_tracks (ha : env.Avoids own) (hk : own k) (hkey : sink.keyOf locator = .ok k) :
    Triple (fun w => w.clone.initialized = true ∧ Tracks own k (some c) w) (sink.get env locator)
      (fun data _ => c = some data) (fun _ => c = none) := by
  refine Triple.bind (triple_ensureReady_of_initialized fun _ => And.left) fun _ => ?_
  refine Triple.bind (Q := fun _ => Tracks own k (some c)) ?_ fun _ => ?_
  · refine Triple.bind (Q := fun _ => Tracks own k (some c)) (triple_attempt ?_)
      fun _ => triple_pure fun _ => id
    exact (tracks_gitPullFf sink.branch ha.pull hk).mono (fun _ => And.right) (fun _ _ => id)
      fun _ hw _ => hw
  refine Triple.bind (Q := fun path w => Tracks own k (some c) w ∧ path = k) ?_
    fun path => triple_of_pure fun hpath => ?_
  · refine Triple.bind (Q := fun path w => Tracks own k (some c) w ∧ path = k) ?_
      fun path => triple_of_pure fun hpath => ?_
    · rw [hkey]
      exact triple_pure fun w hw => ⟨hw, rfl⟩
    · subst hpath
      refine Triple.bind (Q := fun b w => Tracks own path (some c) w ∧ b = c.isSome)
        (triple_look fun w hw => ⟨hw, congrArg Option.isSome hw.fileAt⟩)
        fun b => triple_of_pure fun hb => ?_
      refine triple_ite (fun _ => triple_pure fun w hw => ⟨hw, rfl⟩) fun hnot => ?_
      exact triple_raise fun _ _ => by simpa [hb] using hnot
  subst hpath
  refine Triple.bind (Q := fun content _ => content = c) (triple_look fun w hw => hw.fileAt)
    fun content => ?_
  cases content with
  | some data => exact triple_pure fun _ hc => hc.symm
  | none => exact triple_raise fun _ hc => hc.symm

theorem get_eq_ok_iff (h : Tracks own k (some c) w) (hready : w.clone.initialized = true)
    (ha : env.Avoids own) (hk : own k) (hkey : sink.keyOf locator = .ok k) (data : List UInt8) :
    (sink.get env locator w).1 = .ok data ↔ c = some data := by
  obtain ⟨hok, herror⟩ := get_of_tracks (c := c) ha hk hkey w ⟨hready, h⟩
  rcases hget : sink.get env locator w with ⟨e | found, w'⟩
  · have hc := herror e w' hget
    subst hc
    exact ⟨nofun, nofun⟩
  · have hc := hok found w' hget
    subst hc
    exact ⟨fun heq => congrArg some (Except.ok.inj heq),
      fun heq => congrArg Except.ok (Option.some.inj heq)⟩

end

/-! ## An outage, and another writer -/

/-- A rebase that replays every commit, and stops where both sides change a file. -/
def GitProgram.replayAll : GitProgram where
  rebase base pending since :=
    if (allChanges pending).any fun c =>
        (allChanges since).any fun c' => c'.1 = c.1 ∧ c'.2 ≠ c.2 then
      .error ⟨base ++ since, [], [], []⟩
    else .ok (base ++ since ++ pending)

theorem replayAll_documented : GitProgram.replayAll.Documented where
  replays := by
    intro base pending since result h
    dsimp only [GitProgram.replayAll] at h
    split at h
    · cases h
    · cases h
      refine ⟨List.prefix_append _ _, fun k ht => ?_, fun k ht _ => ?_⟩
      · rwa [List.drop_left] at ht
      · rw [contentAt_append_of_touches _ ht, contentAt_append_of_touches _ ht]
  stops := by
    intro base pending since stop h
    dsimp only [GitProgram.replayAll] at h
    split at h
    · rename_i hclash
      obtain ⟨⟨k, v⟩, hv, hclash⟩ := List.any_eq_true.1 hclash
      obtain ⟨⟨k', v'⟩, hv', hsame⟩ := List.any_eq_true.1 hclash
      obtain ⟨rfl, hne⟩ := of_decide_eq_true hsame
      exact ⟨k', v, v', hv, hv', Ne.symm hne⟩
    · cases h

def demoGit : GitLibraries where
  git := .replayAll
  format :=
    { encode := fun _ => [], size := List.length, sha256 := fun _ => "",
      gpg := fun data _ => .ok data, shortDigest := id, croniter := fun _ base => .ok base,
      resolveUnder := fun root locator => resolveParts (splitPath root ++ splitPath locator),
      format := fun template _ => .ok template }
  sink := byteLibs "demo"

def demoClone : GitRepoSink := ⟨["clone"], by decide, "backups", "snapshots", false⟩

/-- A call that nothing stops but what comes of its push. -/
def pushing (push : NetReply) (id : Nat) : GitCircumstances where
  clone := ⟨[], .served, ""⟩
  mainline := []
  config := none
  lfs := none
  attributes := none
  attributesAdd := none
  attributesCommit := ⟨0, none⟩
  attributesPush := ⟨[], .served, ""⟩
  pull := ⟨[], .served, ""⟩
  disk := none
  add := none
  leftovers := false
  commit := ⟨id, none⟩
  push := push
  rebase := ⟨[], .served, ""⟩
  retry := ⟨[], .served, ""⟩

def offline : GitCircumstances := pushing ⟨[], .unreachable, "Could not resolve host"⟩ 1

/-- Another writer has pushed before. -/
def raced : GitCircumstances :=
  pushing ⟨[⟨9, [(["snapshots", "other"], some [1])]⟩], .served, "! [rejected] (fetch first)"⟩ 2

def fullBlob : BackupBlob (List UInt8) := byteBlob "demo"

def partialBlob : BackupBlob (List UInt8) := { byteBlob "demo" with kind := "partial" }

def fullPath : List String := ["snapshots", "20240101T000000.000000Z-full.tar.gz"]

def partialPath : List String := ["snapshots", "20240101T000000.000000Z-partial.tar.gz"]

def demoStart : GitWorld := ⟨.missing, []⟩

def demoOutage : GitWorld := (demoClone.put demoGit offline fullBlob demoStart).2

def demoRaced : GitWorld := (demoClone.put demoGit raced partialBlob demoOutage).2

abbrev demoOwn (k : List String) : Prop := k ≠ ["snapshots", "other"]

theorem sound_demoStart : demoStart.Sound demoOwn :=
  ⟨rfl, rfl, rfl, fun _ => rfl, nofun, .same []⟩

theorem avoids_demo {push : NetReply} (h : Foreign demoOwn push.landed) (id : Nat) :
    (pushing push id).Avoids demoOwn :=
  ⟨fun _ _ => not_touches_nil, fun _ ht => (not_touches_nil ht).elim,
    fun _ _ => not_touches_nil, fun _ _ => not_touches_nil, h, fun _ _ => not_touches_nil,
    fun _ _ => not_touches_nil, .inl rfl⟩

theorem respects_offline : (GitEvent.put fullBlob offline true).Respects demoGit demoClone
    demoOwn := by
  refine ⟨avoids_demo (fun _ _ => not_touches_nil) 1, fun path hpath => ?_⟩
  have hfull : demoClone.bundlePath demoGit fullBlob = .ok fullPath := rfl
  cases hfull.symm.trans hpath
  exact ⟨by decide, by decide⟩

theorem respects_raced : (GitEvent.put partialBlob raced true).Respects demoGit demoClone
    demoOwn := by
  refine ⟨avoids_demo ?_ 2, fun path hpath => ?_⟩
  · rintro k hk ⟨v, hv⟩
    cases List.mem_singleton.1 hv
    exact hk rfl
  · have hpartial : demoClone.bundlePath demoGit partialBlob = .ok partialPath := rfl
    cases hpartial.symm.trans hpath
    exact ⟨by decide, by decide⟩

theorem run_demoOutage : Run (GitStep demoGit demoClone) demoStart
    [.put fullBlob offline true] demoOutage := by
  have hstep : GitStep demoGit demoClone demoStart (.put fullBlob offline
    (returns (demoClone.put demoGit offline fullBlob demoStart).1)) demoOutage := .put
  have hreturned : returns (demoClone.put demoGit offline fullBlob demoStart).1 = true := by
    decide +kernel
  rw [hreturned] at hstep
  exact Run.single hstep

theorem run_demoRaced : Run (GitStep demoGit demoClone) demoStart
    [.put fullBlob offline true, .put partialBlob raced true] demoRaced := by
  have hstep : GitStep demoGit demoClone demoOutage (.put partialBlob raced
    (returns (demoClone.put demoGit raced partialBlob demoOutage).1)) demoRaced := .put
  have hreturned : returns (demoClone.put demoGit raced partialBlob demoOutage).1 = true := by
    decide +kernel
  rw [hreturned] at hstep
  exact run_demoOutage.append (Run.single hstep)

end ScottyCore
