import ScottyCore.Backup.GitRepo

namespace ScottyCore
open Python Commits Routine
set_option autoImplicit true

namespace GitRepoSink

variable {libs : GitLibraries} {sink : GitRepoSink} {env : GitCircumstances}

/-! ## What the calls keep -/

theorem triple_liftExcept {P : GitWorld → Prop} (result : Except Exc α) :
    Triple P (liftExcept result) (fun a w => P w ∧ result = .ok a) P := by
  cases result with
  | ok a => exact triple_pure fun _ hw => ⟨hw, rfl⟩
  | error e => exact triple_raise fun _ => id

theorem triple_resolve {P : GitWorld → Prop} (locator : String) :
    Triple P (sink.resolve locator) (fun path w => P w ∧ sink.keyOf locator = .ok path) P := by
  refine Triple.bind (triple_liftExcept _) fun path => ?_
  refine Triple.bind (Q := fun _ w => P w ∧ sink.keyOf locator = .ok path)
    (triple_look fun _ => id) fun b => ?_
  exact triple_ite (fun _ => triple_pure fun _ => id) fun _ => triple_raise fun _ => And.left

/-- A property that every command of a call keeps, where `P` holds of the paths that it changes. -/
structure KeptBy (libs : GitLibraries) (sink : GitRepoSink) (env : GitCircumstances)
    (P : List String → Prop) (I : GitWorld → Prop) : Prop where
  push : Keeps I (gitPush sink.branch env.push)
  retry : Keeps I (gitPush sink.branch env.retry)
  attributesPush : Keeps I (gitPush sink.branch env.attributesPush)
  pull : Keeps I (gitPullFf sink.branch env.pull)
  rebase : Keeps I (gitPullRebase libs.git sink.branch env.rebase)
  clone : Triple (fun w => I w ∧ w.clone.cloned = false) (makeClone env) (fun _ => I) I
  commit : ∀ reply, Keeps I (gitCommit reply)
  write : ∀ path content, P path → Keeps I (writeTree path content)
  add : ∀ path, P path → Keeps I (gitAdd path)
  remove : ∀ path w, P path → I w → I (removeTracked path w)
  ready : ∀ w, I w → I { w with clone.initialized := true }
  attributes : env.attributes = none ∨ P [".gitattributes"]

namespace KeptBy

variable {P : List String → Prop} {I : GitWorld → Prop} (h : KeptBy libs sink env P I)
include h

theorem keeps_tryPush : Keeps I (sink.tryPush libs env) := by
  refine (keeps_attempt h.push).bind fun result => ?_
  cases result with
  | ok => exact triple_pure fun _ => id
  | error e =>
    cases e with
    | runtimeError text =>
      refine triple_ite (fun _ => ?_) fun _ => triple_pure fun _ => id
      exact (keeps_attempt (h.rebase.bind fun _ => h.retry)).bind fun _ => triple_pure fun _ => id
    | _ => exact triple_pure fun _ => id

theorem keeps_pull : Keeps I (sink.pull env) :=
  (keeps_attempt h.pull).bind fun _ => triple_pure fun _ => id

theorem keeps_cloneOrAdopt : Keeps I (cloneOrAdopt env) := by
  refine Triple.bind (Q := fun b w => I w ∧ w.clone.cloned = b)
    (triple_look fun w hw => ⟨hw, rfl⟩) fun b => ?_
  cases b with
  | false => exact h.clone
  | true => exact triple_pure fun _ => And.left

theorem keeps_writeAttributes (hp : P [".gitattributes"]) (content : List UInt8) :
    Keeps I (sink.writeAttributes env content) := by
  refine (h.write _ _ hp).bind fun _ => (keeps_attempt ?_).bind fun _ => triple_pure fun _ => id
  refine (keeps_check env.attributesAdd).bind fun _ => (h.add _ hp).bind fun _ => ?_
  refine (h.commit _).bind fun _ => (keeps_attempt h.attributesPush).bind fun _ => ?_
  exact triple_pure fun _ => id

theorem keeps_configureLfs : Keeps I (sink.configureLfs env) := by
  refine triple_ite (fun _ => (keeps_check env.lfs).bind fun _ => ?_) fun _ =>
    triple_pure fun _ => id
  cases hattributes : env.attributes with
  | none => exact triple_pure fun _ => id
  | some content =>
    refine h.keeps_writeAttributes (h.attributes.resolve_left fun hnone => ?_) content
    cases hattributes.symm.trans hnone

theorem keeps_ensureReady : Keeps I (sink.ensureReady env) := by
  have hinit : Keeps I (sink.syncInit env) :=
    h.keeps_cloneOrAdopt.bind fun _ => (keeps_check env.config).bind fun _ => h.keeps_configureLfs
  refine Triple.bind (Q := fun _ => I) (triple_look fun _ => id) fun b => ?_
  refine triple_ite (fun _ => triple_pure fun _ => id) fun _ => ?_
  exact hinit.bind fun _ => triple_change h.ready

theorem keeps_commitAndPush : Keeps I (sink.commitAndPush libs env) := by
  refine Triple.bind (Q := fun _ => I) (triple_look fun _ => id) fun b => ?_
  refine triple_ite (fun _ => triple_pure fun _ => id) fun _ => ?_
  exact (h.commit env.commit).bind fun _ => h.keeps_tryPush

theorem keeps_writeFiles (hp : P path) (hp' : P (sidecarOf path)) :
    Keeps I (writeFiles env path data sidecar) := by
  refine triple_ite (fun _ => triple_raise fun _ => id) fun _ => ?_
  cases env.disk with
  | none => exact (h.write _ _ hp).bind fun _ => h.write _ _ hp'
  | some failure =>
    obtain ⟨replaced, e⟩ := failure
    cases replaced with
    | true => exact (h.write _ _ hp).bind fun _ => triple_raise fun _ => id
    | false => exact triple_raise fun _ => id

theorem keeps_addFiles (hp : P path) (hp' : P (sidecarOf path)) : Keeps I (addFiles env path) :=
  (keeps_check env.add).bind fun _ => (h.add _ hp).bind fun _ => h.add _ hp'

theorem keeps_gitRm (hp : ∀ path ∈ paths, P path) : Keeps I (gitRm paths) := by
  have hfold : ∀ w, I w → I (paths.foldl (fun w path => removeTracked path w) w) := by
    induction paths with
    | nil => exact fun w hw => hw
    | cons path paths ih =>
      intro w hw
      exact ih (fun p hmem => hp p (List.mem_cons_of_mem _ hmem)) _
        (h.remove path w (hp path List.mem_cons_self) hw)
  refine keeps_iff.2 fun w hw => ?_
  unfold gitRm
  split
  · exact hfold w hw
  · exact hw

theorem keeps_removeFiles (hp : P path) (hp' : P (sidecarOf path)) :
    Keeps I (removeFiles path) := by
  refine Triple.bind (Q := fun paths w => I w ∧ ∀ p ∈ paths, P p)
    (triple_look fun w hw => ⟨hw, ?_⟩) fun paths => triple_of_pure h.keeps_gitRm
  split
  · exact List.forall_mem_cons.2 ⟨hp, List.forall_mem_singleton.2 hp'⟩
  · exact List.forall_mem_singleton.2 hp

/-- A put that changes no other paths than those of its bundle. -/
theorem keeps_put
    (hp : ∀ path, sink.bundlePath libs blob = .ok path → P path ∧ P (sidecarOf path)) :
    Keeps I (sink.put libs env blob) := by
  refine Triple.bind h.keeps_ensureReady fun _ => ?_
  refine Triple.bind (triple_liftExcept _) fun rel => triple_of_pure fun hrel => ?_
  refine Triple.bind (triple_liftExcept _) fun path => triple_of_pure fun hpath => ?_
  obtain ⟨hp, hp'⟩ := hp path (by rw [bundlePath, hrel]; exact hpath)
  refine (h.keeps_writeFiles hp hp').bind fun _ => (h.keeps_addFiles hp hp').bind fun _ => ?_
  exact h.keeps_commitAndPush.bind fun _ => triple_pure fun _ => id

theorem keeps_delete (hp : ∀ path, sink.keyOf locator = .ok path → P path ∧ P (sidecarOf path)) :
    Keeps I (sink.delete libs env locator) := by
  refine h.keeps_ensureReady.bind fun _ => h.keeps_pull.bind fun _ => ?_
  refine Triple.bind (triple_resolve locator) fun path => triple_of_pure fun hpath => ?_
  obtain ⟨hp, hp'⟩ := hp path hpath
  exact (h.keeps_removeFiles hp hp').bind fun _ => h.keeps_commitAndPush

theorem keeps_get (locator : String) : Keeps I (sink.get env locator) := by
  refine h.keeps_ensureReady.bind fun _ => h.keeps_pull.bind fun _ => ?_
  refine Triple.bind (triple_resolve locator) fun path => ?_
  refine Triple.bind (Q := fun _ => I) (triple_look fun _ => And.left) fun content => ?_
  cases content with
  | some data => exact triple_pure fun _ => id
  | none => exact triple_raise fun _ => id

theorem keeps_refresh : Keeps I (sink.refresh env) :=
  h.keeps_ensureReady.bind fun _ => h.keeps_pull

end KeptBy

end GitRepoSink

end ScottyCore
