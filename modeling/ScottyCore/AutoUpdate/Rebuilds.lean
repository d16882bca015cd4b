import ScottyCore.AutoUpdate.Settling

namespace ScottyCore.AutoUpdate
open Python TransitionSystem
set_option autoImplicit true

/-! ## Checks and rebuilds of an app -/

/-- An app on its host: the pin of the last rebuild, what the running check still has to write and
the tag it bumps to, and the tag of the last bump. -/
structure AppHost where
  app : ConsumerApp
  built : Option (List Char)
  running : List AppWrite
  target : Option (List Char)
  bumped : Option (List Char)

inductive HostEvent where
  | start (poll : Poll)
  | write
  | die
  | rebuild

/-- The tag of the last bump, after a write of a check that bumps to a tag. -/
def bumpedBy (target bumped : Option (List Char)) : AppWrite → Option (List Char)
  | .pyproject _ => target
  | _ => bumped

/-- The steps of the checks in the mode `auto` and of the host, which removes the flag where it
rebuilds. A check can end between any two of its writes. -/
inductive HostStep {V : Type} [LinearOrder V] (brand : BrandConfig) (parse : List Char → Option V) :
    AppHost → HostEvent → AppHost → Prop where
  | start (h : AppHost) (poll : Poll) : h.running = [] → readMode poll.mode_row = .auto →
      HostStep brand parse h (.start poll) { h with
        running := (checkOnce brand parse poll h.app).2
        target := (fetchLatestTag parse poll.forge).toOption }
  | write (h : AppHost) (w : AppWrite) (ws : List AppWrite) : h.running = w :: ws →
      HostStep brand parse h .write { h with
        app := h.app.write w
        running := ws
        bumped := bumpedBy h.target h.bumped w }
  | die (h : AppHost) : HostStep brand parse h .die { h with running := [] }
  | rebuild (h : AppHost) : h.app.rebuild_flag ≠ none →
      HostStep brand parse h .rebuild { h with
        app := { h.app with rebuild_flag := none }
        built := h.app.pin brand }

variable {V : Type} [LinearOrder V] {brand : BrandConfig} {parse : List Char → Option V}
  {h h' : AppHost} {e : HostEvent} {poll : Poll}

/-- A rebuild from the pin is not needed or requested: the flag is there, or the running check or a
later one writes it while the forge reports the tag. -/
def RebuildFollows (brand : BrandConfig) (parse : List Char → Option V) (h : AppHost) : Prop :=
  h.app.pin brand = h.built ∨ h.app.rebuild_flag ≠ none ∨
  (∃ flag, .rebuildFlag flag ∈ h.running) ∨
  ∃ tag, h.bumped = some tag ∧ tag ≠ [] ∧ ∀ poll, readMode poll.mode_row = .auto →
    fetchLatestTag parse poll.forge = .ok tag →
    ∃ flag, .rebuildFlag flag ∈ (checkOnce brand parse poll h.app).2

/-- The tag of the last bump is newer than what is read back. -/
def FoundAgain (brand : BrandConfig) (parse : List Char → Option V) (h : AppHost) : Prop :=
  ∃ pin tag, h.app.pin brand = some pin ∧ h.bumped = some tag ∧ isNewer parse pin tag = true

/-- A check that has bumped the pin and not yet written the flag ends only where the flag of an
earlier check is there, the host has rebuilt from the pin, or the tag is found newer again. -/
def SafeDeath (brand : BrandConfig) (parse : List Char → Option V) (h : AppHost) : Prop :=
  ∀ flag, h.running = [.rebuildFlag flag] →
    h.app.pin brand = h.built ∨ h.app.rebuild_flag ≠ none ∨ FoundAgain brand parse h

def SafeStep (brand : BrandConfig) (parse : List Char → Option V) (h : AppHost) : HostEvent → Prop
  | .die => SafeDeath brand parse h
  | _ => True

/-! ## One step -/

/-- The writes that a check can have left. -/
inductive WritesLeft : List AppWrite → Prop where
  | none : WritesLeft []
  | both (text : List Char) (flag : RebuildFlag) : WritesLeft [.pyproject text, .rebuildFlag flag]
  | flag (flag : RebuildFlag) : WritesLeft [.rebuildFlag flag]

/-- What holds in every state between two steps. -/
structure Requested (brand : BrandConfig) (parse : List Char → Option V) (h : AppHost) : Prop where
  left : WritesLeft h.running
  follows : h.app.pin brand = h.built ∨ h.app.rebuild_flag ≠ none ∨
    (∃ flag, h.running = [.rebuildFlag flag]) ∨ FoundAgain brand parse h

theorem writesLeft_checkOnce (hmode : readMode poll.mode_row = .auto) (app : ConsumerApp) :
    WritesLeft (checkOnce brand parse poll app).2 := by
  rcases checkOnce_auto brand parse app hmode with hnone | ⟨_, _, _, updated, flag, -, -, hwrites⟩
  · rw [hnone]
    exact .none
  · rw [hwrites]
    exact .both updated flag

theorem Requested.start (hr : Requested brand parse h) (hidle : h.running = [])
    (hmode : readMode poll.mode_row = .auto) : Requested brand parse { h with
      running := (checkOnce brand parse poll h.app).2
      target := (fetchLatestTag parse poll.forge).toOption } := by
  refine ⟨writesLeft_checkOnce hmode h.app, ?_⟩
  rcases hr.follows with hbuilt | hflag | ⟨flag, hrunning⟩ | hagain
  · exact .inl hbuilt
  · exact .inr (.inl hflag)
  · cases hidle.symm.trans hrunning
  · exact .inr (.inr (.inr hagain))

theorem Requested.write {w : AppWrite} {ws : List AppWrite} (hr : Requested brand parse h)
    (hrunning : h.running = w :: ws) : Requested brand parse { h with
      app := h.app.write w
      running := ws
      bumped := bumpedBy h.target h.bumped w } := by
  have hleft := hr.left
  rw [hrunning] at hleft
  cases hleft with
  | both text flag => exact ⟨.flag flag, .inr (.inr (.inl ⟨flag, rfl⟩))⟩
  | flag flag => exact ⟨.none, .inr (.inl (Option.some_ne_none flag))⟩

theorem Requested.die (hr : Requested brand parse h) (hsafe : SafeDeath brand parse h) :
    Requested brand parse { h with running := [] } := by
  refine ⟨.none, ?_⟩
  rcases hr.follows with hbuilt | hflag | ⟨flag, hrunning⟩ | hagain
  · exact .inl hbuilt
  · exact .inr (.inl hflag)
  · rcases hsafe flag hrunning with hbuilt | hflag | hagain
    · exact .inl hbuilt
    · exact .inr (.inl hflag)
    · exact .inr (.inr (.inr hagain))
  · exact .inr (.inr (.inr hagain))

theorem Requested.step (hr : Requested brand parse h) (hstep : HostStep brand parse h e h')
    (hsafe : SafeStep brand parse h e) : Requested brand parse h' := by
  cases hstep with
  | start poll hidle hmode => exact hr.start hidle hmode
  | write w ws hrunning => exact hr.write hrunning
  | die => exact hr.die hsafe
  | rebuild hflag => exact ⟨hr.left, .inl rfl⟩

/-! ## A later check -/

theorem fetch_released {tag : List Char} (hne : tag ≠ []) :
    fetchLatestTag parse (released (String.ofList tag)).forge = .ok tag := by
  have hname : String.ofList tag ≠ "" := by
    intro h
    apply hne
    have hlist := congrArg String.toList h
    rwa [String.toList_ofList] at hlist
  have htruthy : (Json.str (String.ofList tag)).truthy = true := decide_eq_true hname
  have hget : JsonDict.get [("tag_name", Json.str (String.ofList tag))] "tag_name" =
      Json.str (String.ofList tag) := rfl
  simp [fetchLatestTag, released, hget, htruthy, hname]

theorem FoundAgain.writes (hagain : FoundAgain brand parse h) :
    ∃ tag, h.bumped = some tag ∧ tag ≠ [] ∧ ∀ poll, readMode poll.mode_row = .auto →
      fetchLatestTag parse poll.forge = .ok tag →
      ∃ flag, .rebuildFlag flag ∈ (checkOnce brand parse poll h.app).2 := by
  obtain ⟨pin, tag, hpin, hbumped, hnewer⟩ := hagain
  obtain ⟨text, htext, hread⟩ := Option.bind_eq_some_iff.1 hpin
  refine ⟨tag, hbumped, ?_, ?_⟩
  · rintro rfl
    rw [isNewer, if_pos (.inr rfl)] at hnewer
    cases hnewer
  · intro poll hmode htag
    obtain ⟨updated, flag, hwrites⟩ := checkOnce_of_due hmode ⟨htext, hread, htag, hnewer⟩
    rw [hwrites]
    exact ⟨flag, List.mem_cons_of_mem _ List.mem_cons_self⟩

/-- A check that writes the flag has found the tag newer. -/
theorem foundAgain_of_writes {tag : List Char} {flag : RebuildFlag} (hbumped : h.bumped = some tag)
    (hmode : readMode poll.mode_row = .auto) (htag : fetchLatestTag parse poll.forge = .ok tag)
    (hflag : .rebuildFlag flag ∈ (checkOnce brand parse poll h.app).2) :
    FoundAgain brand parse h := by
  rcases checkOnce_auto brand parse h.app hmode with
    hnone | ⟨text, current, latest, updated, flag', hdue, -⟩
  · rw [hnone] at hflag
    cases hflag
  · obtain rfl := Except.ok.inj (hdue.reports.symm.trans htag)
    exact ⟨current, latest, hdue.pin, hbumped, hdue.newer⟩

theorem Requested.rebuildFollows (hr : Requested brand parse h) : RebuildFollows brand parse h := by
  rcases hr.follows with hbuilt | hflag | ⟨flag, hrunning⟩ | hagain
  · exact .inl hbuilt
  · exact .inr (.inl hflag)
  · apply Or.inr ∘ Or.inr ∘ Or.inl
    rw [hrunning]
    exact ⟨flag, List.mem_cons_self⟩
  · exact .inr (.inr (.inr hagain.writes))

/-- Where a check ends, a rebuild follows if and only if the death is safe. -/
theorem Requested.rebuildFollows_die (hr : Requested brand parse h) :
    RebuildFollows brand parse { h with running := [] } ↔ SafeDeath brand parse h := by
  constructor
  · rintro (hbuilt | hflag | ⟨_, hmem⟩ | ⟨tag, hbumped, hne, hlater⟩) flag -
    · exact .inl hbuilt
    · exact .inr (.inl hflag)
    · cases hmem
    · obtain ⟨flag', hmem⟩ := hlater (released (String.ofList tag)) rfl (fetch_released hne)
      exact .inr (.inr (foundAgain_of_writes hbumped rfl (fetch_released hne) hmem))
  · intro hsafe
    exact (hr.die hsafe).rebuildFollows

/-! ## Runs -/

theorem requested_of_run {es : List HostEvent} (hidle : h.running = [])
    (hbuilt : h.app.pin brand = h.built)
    (hrun : Run (Guarded (HostStep brand parse) (SafeStep brand parse)) h es h') :
    Requested brand parse h' := by
  have hstart : Requested brand parse h := by
    refine ⟨?_, .inl hbuilt⟩
    rw [hidle]
    exact .none
  apply hrun.invariant hstart
  intro h e h' hr hstep
  exact hr.step hstep.1 hstep.2

/-- While the checks end safely, a rebuild follows from every bumped pin, and where one ends
otherwise, none does. -/
theorem rebuild_follows (brand : BrandConfig) (parse : List Char → Option V) (h h' : AppHost)
    (es : List HostEvent) (hidle : h.running = []) (hbuilt : h.app.pin brand = h.built)
    (hrun : Run (Guarded (HostStep brand parse) (SafeStep brand parse)) h es h') :
    RebuildFollows brand parse h' ∧
      ∀ h'', HostStep brand parse h' .die h'' →
        (RebuildFollows brand parse h'' ↔ SafeDeath brand parse h') := by
  have hr := requested_of_run hidle hbuilt hrun
  refine ⟨hr.rebuildFollows, ?_⟩
  intro h'' hdie
  cases hdie with
  | die => exact hr.rebuildFollows_die

/-! ## Three checks -/

/-- The host of an app that was rebuilt from its pin. -/
def builtHost : AppHost := ⟨pinnedApp, some "v1.2.3".toList, [], none, none⟩

def releaseWrites : List AppWrite :=
  [.pyproject (plainPin.pinnedAt "v1.3.0".toList),
    .rebuildFlag ⟨"2026-01-01T00:00:00+00:00", "scottycore auto-update bump"⟩]

/-- The host after the start of a check that bumps to `v1.3.0`, and after its first write. -/
def startedHost : AppHost :=
  { builtHost with running := releaseWrites, target := some "v1.3.0".toList }

def bumpedHost : AppHost :=
  { startedHost with
    app := { pinnedApp with pyproject := some (plainPin.pinnedAt "v1.3.0".toList) }
    running := releaseWrites.tail
    bumped := startedHost.target }

theorem built_pin : builtHost.app.pin scottyBrand = builtHost.built := by
  decide +kernel

theorem bumped_pin : bumpedHost.app.pin scottyBrand = some "v1.3.0".toList := by
  decide +kernel

theorem start_release :
    HostStep scottyBrand releaseVersion builtHost (.start (released "v1.3.0")) startedHost := by
  have hwrites : (checkOnce scottyBrand releaseVersion (released "v1.3.0") builtHost.app).2 =
      releaseWrites := by
    decide +kernel
  have hstep : HostStep scottyBrand releaseVersion builtHost (.start (released "v1.3.0"))
      { builtHost with
        running := (checkOnce scottyBrand releaseVersion (released "v1.3.0") builtHost.app).2
        target := (fetchLatestTag releaseVersion (released "v1.3.0").forge).toOption } :=
    .start builtHost _ rfl rfl
  rw [hwrites] at hstep
  exact hstep

theorem write_release : HostStep scottyBrand releaseVersion startedHost .write bumpedHost :=
  .write startedHost _ _ rfl

theorem release_requested :
    RebuildFollows scottyBrand releaseVersion bumpedHost ∧ ∀ h,
      HostStep scottyBrand releaseVersion bumpedHost .die h →
      (RebuildFollows scottyBrand releaseVersion h ↔
        SafeDeath scottyBrand releaseVersion bumpedHost) :=
  rebuild_follows scottyBrand releaseVersion builtHost bumpedHost
    [.start (released "v1.3.0"), .write] rfl built_pin
    (.snoc (.single ⟨start_release, trivial⟩) ⟨write_release, trivial⟩)

/-- A check that ends between its two writes leaves a pin that no rebuild follows. -/
theorem bump_without_request : builtHost.app.pin scottyBrand = builtHost.built ∧ ∃ h,
    Run (HostStep scottyBrand releaseVersion) builtHost
      [.start (released "v1.3.0"), .write, .die] h ∧
    h.app.pin scottyBrand = some "v1.3.0".toList ∧ h.built = some "v1.2.3".toList ∧
    h.app.rebuild_flag = none ∧ ¬ RebuildFollows scottyBrand releaseVersion h := by
  refine ⟨built_pin, { bumpedHost with running := [] },
    .snoc (.snoc (.single start_release) write_release) (.die bumpedHost), bumped_pin, rfl, rfl, ?_⟩
  rintro (hbuilt | hflag | ⟨_, hmem⟩ | ⟨tag, hbumped, -, hlater⟩)
  · have hpins := bumped_pin.symm.trans hbuilt
    revert hpins
    decide +kernel
  · exact hflag rfl
  · cases hmem
  · obtain rfl := Option.some.inj hbumped
    obtain ⟨flag, hmem⟩ := hlater (released "v1.3.0") rfl rfl
    rw [checkOnce_of_current rfl bumped_pin rfl] at hmem
    cases hmem

end ScottyCore.AutoUpdate
