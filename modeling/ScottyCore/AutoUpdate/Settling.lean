import ScottyCore.AutoUpdate.Bumps
import ScottyCore.AutoUpdate.Checks
import ScottyCore.Lib.Run

namespace ScottyCore.AutoUpdate
open Python TextSearch TransitionSystem
set_option autoImplicit true

variable {V : Type} [LinearOrder V] {parse : List Char → Option V} {brand : BrandConfig}
  {poll : Poll} {app app' : ConsumerApp} {text current latest updated : List Char}

/-- A run of `check_once` in the mode `auto`. -/
def AutoCheck (brand : BrandConfig) (parse : List Char → Option V) (app : ConsumerApp) (poll : Poll)
    (app' : ConsumerApp) : Prop :=
  readMode poll.mode_row = .auto ∧ app' = app.writeAll (checkOnce brand parse poll app).2

/-- Where the first text that reads as the pin stands: at the pin, or before the text that the
pattern matches, where the pattern matches nothing with the new tag either. -/
inductive BumpPlace (name : PackageName) (current latest text : List Char) : Prop where
  | own (begun head after : List Char)
    (found : leftmost (pinAt name) text = some (begun, head, current, after))
    (first : Unfound (stripPrefix ('@' :: current)) (begun ++ head) ('@' :: (current ++ after)))
  | other (before between head after : List Char)
    (found : leftmost (pinAt name) text =
      some (before ++ '@' :: (current ++ between), head, current, after))
    (first : Unfound (stripPrefix ('@' :: current)) before
      ('@' :: (current ++ (between ++ (head ++ '@' :: (current ++ after))))))
    (unmatched : Unfound (pinAt name) (before ++ '@' :: (latest ++ between))
      (head ++ '@' :: (current ++ after)))

/-- If an update is due, the tag is a version if the pin is one, it can stand for a reference, and
the bump changes what the pattern finds at the pin or not at all. -/
def SoundUpdate (brand : BrandConfig) (parse : List Char → Option V) (app : ConsumerApp)
    (poll : Poll) : Prop :=
  ∀ text current latest, UpdateDue brand parse poll app text current latest →
    (versionOf parse current ≠ none → versionOf parse latest ≠ none) ∧ IsRef latest ∧
    BumpPlace brand.framework_name current latest (universalNewlines text)

theorem findPin_of_leftmost {name : PackageName} {begun head ref after : List Char}
    (h : leftmost (pinAt name) text = some (begun, head, ref, after)) :
    findPin name text = some (begun ++ head, ref, after) := by
  rw [findPin, h]
  rfl

theorem IsRef.no_return (h : IsRef ref) : '\r' ∉ ref := by
  intro hmem
  exact absurd (h.2 '\r' hmem) (by decide)

/-- The bump leaves the pin, or puts the tag in its place. -/
theorem BumpPlace.readCurrentPin {name : PackageName}
    (h : BumpPlace name current latest (universalNewlines text)) (href : IsRef latest)
    (hnew : latest ≠ current) (hbump : bumpPin current latest text = some updated) :
    readCurrentPin name updated = some current ∨ readCurrentPin name updated = some latest := by
  have hclean := no_return_universalNewlines text
  rw [← bumpPin_universalNewlines] at hbump
  cases h with
  | own begun head after found first =>
    have hpin := findPin_of_leftmost found
    obtain ⟨-, -, -, htext, -⟩ := findPin_eq_some_iff.1 hpin
    rw [htext] at hclean hbump
    obtain rfl := Option.some.inj ((bumpPin_of_unfound hclean first hnew).symm.trans hbump)
    have hreturn := not_mem_replace hclean href.no_return
    apply Or.inr
    rw [AutoUpdate.readCurrentPin, universalNewlines_of_plain hreturn, findPin_replace hpin href,
      Option.map_some]
  | other before between head after found first unmatched =>
    obtain ⟨found', htext, hfound, -⟩ := leftmost_eq_some_iff.1 found
    obtain ⟨rfl, hmatch, hcurrent, hstop⟩ := pinAt_iff.1 hfound
    rw [List.append_assoc, List.cons_append, List.append_assoc] at htext
    rw [htext] at hclean hbump
    obtain rfl := Option.some.inj ((bumpPin_of_unfound hclean first hnew).symm.trans hbump)
    have hpin : findPin name (before ++ '@' :: (latest ++ (between ++
        (head ++ '@' :: (current ++ after))))) =
        some (before ++ '@' :: (latest ++ between) ++ head, current, after) := by
      refine findPin_eq_some_iff.2 ⟨_, head, rfl, ?_, hmatch, hcurrent, hstop, unmatched⟩
      simp only [List.append_assoc, List.cons_append]
    have hreturn := not_mem_replace hclean href.no_return
    apply Or.inl
    rw [AutoUpdate.readCurrentPin, universalNewlines_of_plain hreturn, hpin, Option.map_some]

/-! ## One check -/

/-- A check leaves the pin, or moves it to a newer tag, which is a version if the pin was one. -/
theorem AutoCheck.pin_cases (h : AutoCheck brand parse app poll app')
    (hsound : SoundUpdate brand parse app poll) :
    app'.pin brand = app.pin brand ∨ ∃ current latest, app.pin brand = some current ∧
      fetchLatestTag parse poll.forge = .ok latest ∧ isNewer parse current latest = true ∧
      (versionOf parse current ≠ none → versionOf parse latest ≠ none) ∧
      app'.pin brand = some latest := by
  obtain ⟨hmode, rfl⟩ := h
  rcases checkOnce_auto brand parse app hmode with
    hnone | ⟨text, current, latest, updated, flag, hdue, hupdated, hwrites⟩
  · rw [hnone]
    exact .inl rfl
  · obtain ⟨hversion, href, hplace⟩ := hsound text current latest hdue
    rw [hwrites]
    have hpin : (app.writeAll [.pyproject updated, .rebuildFlag flag]).pin brand =
        readCurrentPin brand.framework_name updated := rfl
    rw [hpin]
    rcases hplace.readCurrentPin href hdue.ne hupdated with hread | hread
    · exact .inl (hread.trans hdue.pin.symm)
    · exact .inr ⟨current, latest, hdue.pin, hdue.reports, hdue.newer, hversion, hread⟩

theorem AutoCheck.eq_of_current {tag : List Char} (h : AutoCheck brand parse app poll app')
    (hpin : app.pin brand = some tag) (htag : fetchLatestTag parse poll.forge = .ok tag) :
    app' = app := by
  obtain ⟨hmode, rfl⟩ := h
  rw [checkOnce_of_current hmode hpin htag]
  rfl

/-- The pin is a version, and not an older one than a given one. -/
def PinnedFrom (brand : BrandConfig) (parse : List Char → Option V) (v : V) (app : ConsumerApp) :
    Prop :=
  ∃ pin w, app.pin brand = some pin ∧ versionOf parse pin = some w ∧ v ≤ w

theorem PinnedFrom.check {v : V} (hpinned : PinnedFrom brand parse v app)
    (h : AutoCheck brand parse app poll app') (hsound : SoundUpdate brand parse app poll) :
    PinnedFrom brand parse v app' := by
  obtain ⟨pin, w, hpin, hw, hle⟩ := hpinned
  rcases h.pin_cases hsound with hsame | ⟨current, latest, hcurrent, -, hnewer, hversion, hlatest⟩
  · exact ⟨pin, w, hsame.trans hpin, hw, hle⟩
  · obtain rfl := Option.some.inj (hcurrent.symm.trans hpin)
    have hsome : versionOf parse latest ≠ none := by
      apply hversion
      rw [hw]
      exact Option.some_ne_none w
    obtain ⟨l, hl⟩ := Option.ne_none_iff_exists'.1 hsome
    exact ⟨latest, l, hlatest, hl, hle.trans (lt_of_isNewer hnewer hw hl).le⟩

/-! ## Runs of checks -/

/-- In a run of sound updates the pin never goes from a version to an older one or to what is not a
version, and it stops changing while the forge answers the same. -/
theorem auto_mode_settles (brand : BrandConfig) (parse : List Char → Option V) :
    (∀ app polls app',
      Run (Guarded (AutoCheck brand parse) (SoundUpdate brand parse)) app polls app' →
      ∀ pin v, app.pin brand = some pin → versionOf parse pin = some v →
        PinnedFrom brand parse v app') ∧
    ∀ forge (polls : ℕ → Poll) (apps : ℕ → ConsumerApp),
      (∀ n, (polls n).forge = forge ∧ Guarded (AutoCheck brand parse) (SoundUpdate brand parse)
        (apps n) (polls n) (apps (n + 1))) →
      ∃ N, ∀ n, N ≤ n → (apps n).pin brand = (apps N).pin brand := by
  constructor
  · intro app polls app' hrun pin v hpin hv
    apply hrun.invariant (I := PinnedFrom brand parse v) ⟨pin, v, hpin, hv, le_rfl⟩
    intro app poll app' hpinned hstep
    exact hpinned.check hstep.1 hstep.2
  · intro forge polls apps hsteps
    by_cases hreached : ∃ N tag, fetchLatestTag parse forge = .ok tag ∧
        (apps N).pin brand = some tag
    · obtain ⟨N, tag, htag, hpin⟩ := hreached
      refine ⟨N, ?_⟩
      intro n hn
      induction n, hn using Nat.le_induction with
      | base => rfl
      | succ n _ ih =>
        obtain ⟨hforge, hcheck, -⟩ := hsteps n
        rw [hcheck.eq_of_current (ih.trans hpin) (hforge ▸ htag), ih]
    · refine ⟨0, ?_⟩
      intro n _
      induction n with
      | zero => rfl
      | succ n ih =>
        obtain ⟨hforge, hcheck, hsound⟩ := hsteps n
        rcases hcheck.pin_cases hsound with hsame | ⟨-, tag, -, htag, -, -, hpin⟩
        · exact hsame.trans (ih (Nat.zero_le n))
        · exact (hreached ⟨n + 1, tag, hforge ▸ htag, hpin⟩).elim

/-! ## Two checks -/

/-- The numbers of a final release such as `1.2.3`, without the zeros at its end. -/
def releaseVersion (text : List Char) : Option (List ℕ) :=
  ((text.splitOn '.').mapM fun part =>
    if part ≠ [] ∧ part.all Char.isDigit then
      some (part.foldl (fun n c => 10 * n + (c.toNat - '0'.toNat)) 0)
    else none).map fun parts => (parts.reverse.dropWhile (· = 0)).reverse

def scottyBrand : BrandConfig := ⟨frameworkName⟩

/-- The forge reports a release, and the mode is `auto`. -/
def released (tag : String) : Poll where
  forge := ⟨.answered 200 "" (.ok (.obj [("tag_name", .str tag)])), .failed ""⟩
  mode_row := .value (.str "auto")
  saves := true
  now := "2026-01-01T00:00:00+00:00"

/-- An app pinned at `v1.2.3`. -/
def pinnedApp : ConsumerApp := ⟨"/opt/scottycore/demo", some plainPin.file, none, none⟩

def checkedApp (tag : String) : ConsumerApp :=
  pinnedApp.writeAll (checkOnce scottyBrand releaseVersion (released tag) pinnedApp).2

theorem release_sound :
    SoundUpdate scottyBrand releaseVersion pinnedApp (released "v1.3.0") := by
  intro text current latest hdue
  obtain rfl := Option.some.inj hdue.file
  have hpin : readCurrentPin scottyBrand.framework_name plainPin.file = some "v1.2.3".toList := by
    decide +kernel
  obtain rfl := Option.some.inj (hpin.symm.trans hdue.reads)
  obtain rfl : "v1.3.0".toList = latest := Except.ok.inj hdue.reports
  have hfound : leftmost (pinAt frameworkName) plainPin.file =
      some (plainPin.before, plainPin.requirement, plainPin.ref, plainPin.after) := by
    decide +kernel
  refine ⟨?_, ?_, ?_⟩
  · intro _
    decide +kernel
  · exact ⟨by decide +kernel, forall_mem_of_all (by decide +kernel)⟩
  · rw [universalNewlines_of_plain plainPin_reached.newlines]
    exact .own plainPin.before plainPin.requirement plainPin.after hfound plainPin_reached.replaced

theorem pin_follows_release :
    PinnedFrom scottyBrand releaseVersion [1, 2, 3] (checkedApp "v1.3.0") :=
  (auto_mode_settles scottyBrand releaseVersion).1 pinnedApp [released "v1.3.0"] _
    (.single ⟨⟨rfl, rfl⟩, release_sound⟩) "v1.2.3".toList [1, 2, 3] (by decide +kernel)
    (by decide +kernel)

/-- A release that is not a version takes the place of a version. -/
theorem pin_leaves_versions : pinnedApp.pin scottyBrand = some "v1.2.3".toList ∧
    versionOf releaseVersion "v1.2.3".toList = some [1, 2, 3] ∧
    AutoCheck scottyBrand releaseVersion pinnedApp (released "nightly") (checkedApp "nightly") ∧
    (checkedApp "nightly").pin scottyBrand = some "nightly".toList ∧
    ¬ PinnedFrom scottyBrand releaseVersion [1, 2, 3] (checkedApp "nightly") := by
  have hnightly : (checkedApp "nightly").pin scottyBrand = some "nightly".toList := by
    decide +kernel
  refine ⟨by decide +kernel, by decide +kernel, ⟨rfl, rfl⟩, hnightly, ?_⟩
  rintro ⟨pin, w, hpin, hw, -⟩
  obtain rfl := Option.some.inj (hnightly.symm.trans hpin)
  have hnone : versionOf releaseVersion "nightly".toList = none := by
    decide +kernel
  rw [hnone] at hw
  cases hw

end ScottyCore.AutoUpdate
