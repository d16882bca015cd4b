import Mathlib.Data.List.Basic
import Mathlib.Data.List.Induction
import ScottyCore.Lib.Routine
import ScottyCore.Lib.Run
import ScottyCore.Lib.Text

namespace ScottyCore
open Python Routine TransitionSystem
set_option autoImplicit true

/-! ## `launch.py`: dependencies -/

inductive LaunchExc where
  | calledProcessError
  | keyboardInterrupt
  deriving DecidableEq

/-- `pyproject.toml`, the hash file of the virtual environment, and the project that pip was last
done with. -/
structure Venv where
  pyproject : Option (List UInt8)
  deps_hash : Option String
  installed : Option (Option (List UInt8))

/-- `compute_deps_hash`, with the hexadecimal digest of `hashlib` -/
def computeDepsHash (sha256 : List UInt8 → String) : Option (List UInt8) → String
  | some data => String.ofList ((sha256 data).toList.take 16)
  | none => "none"

/-- `install_dependencies`, with what comes of pip -/
def installDependencies (sha256 : List UInt8 → String) (force : Bool) (pip : Option LaunchExc) :
    Routine Venv LaunchExc Unit := fun v =>
  let current_hash := computeDepsHash sha256 v.pyproject
  if force = false ∧ v.deps_hash.map strip = some current_hash then (.ok (), v)
  else
    match pip with
    | some e => (.error e, v)
    | none => (.ok (), { v with deps_hash := some current_hash, installed := some v.pyproject })

/-! ## `launch.py`: the watch over the server -/

def RESTART_EXIT_CODE : Int := 75
def MAX_RAPID_CRASHES : Nat := 3

/-- In microseconds. -/
def RAPID_CRASH_WINDOW : Int := 60 * 1000000

/-- How the server process ended, and when: `pyproject.toml` as it was left, what comes of pip, and
whether the pause after it is interrupted. -/
structure ServerExit where
  exit_code : Option Int
  now : Int
  pyproject : Option (List UInt8)
  pip : Option LaunchExc
  interrupted : Bool

inductive WatchEnd where
  | clean
  | gaveUp
  | interrupted
  | raised (e : LaunchExc)
  deriving DecidableEq

/-- The watch goes on, with the crashes that it remembers, or has ended. -/
inductive Watch where
  | running (crash_times : List Int)
  | ended (why : WatchEnd)
  deriving DecidableEq

def ServerExit.restarts (e : ServerExit) : Bool := e.exit_code = some RESTART_EXIT_CODE

def ServerExit.clean (e : ServerExit) : Bool := e.exit_code = none ∨ e.exit_code = some 0

def ServerExit.crashed (e : ServerExit) : Bool := !e.restarts && !e.clean

/-- The turn of the loop of `run_server_with_crash_watch` after a server process has ended. -/
def watchTurn (sha256 : List UInt8 → String) (crash_times : List Int) (e : ServerExit) (v : Venv) :
    Watch × Venv :=
  let v := { v with pyproject := e.pyproject }
  if e.restarts then
    match installDependencies sha256 false e.pip v with
    | (.error err, v) => (.ended (.raised err), v)
    | (.ok (), v) =>
      (if e.interrupted then .ended (.raised .keyboardInterrupt) else .running crash_times, v)
  else if e.clean then (.ended .clean, v)
  else
    let crash_times := (crash_times ++ [e.now]).filter fun t => e.now - t < RAPID_CRASH_WINDOW
    if MAX_RAPID_CRASHES ≤ crash_times.length then (.ended .gaveUp, v)
    else if e.interrupted then (.ended .interrupted, v)
    else (.running crash_times, v)

def watchStep (sha256 : List UInt8 → String) (s : Watch × Venv) (e : ServerExit) : Watch × Venv :=
  match s.1 with
  | .running crash_times => watchTurn sha256 crash_times e s.2
  | .ended _ => s

/-- `run_server_with_crash_watch`, up to the last of the exits -/
def runServerWithCrashWatch (sha256 : List UInt8 → String) (exits : List ServerExit) (v : Venv) :
    Watch × Venv := exits.foldl (watchStep sha256) (.running [], v)

/-! ## What the watch remembers -/

variable {sha256 : List UInt8 → String} {v : Venv} {before exits : List ServerExit}
  {e : ServerExit} {ts : List Int}

/-- The crashes of a history that are rapid at a time. -/
def rapidCrashes (history : List ServerExit) (now : Int) : List ServerExit :=
  history.filter fun c => c.crashed && decide (now - c.now < RAPID_CRASH_WINDOW)

/-- The remembered times are those of all crashes, as far as they are rapid from now on. -/
def Remembers (before : List ServerExit) (crash_times : List Int) : Prop :=
  ∀ now, (∀ e ∈ before, e.now ≤ now) →
    crash_times.filter (fun t => now - t < RAPID_CRASH_WINDOW) =
      (rapidCrashes before now).map ServerExit.now

theorem rapidCrashes_concat (before : List ServerExit) (e : ServerExit) (now : Int) :
    rapidCrashes (before ++ [e]) now = rapidCrashes before now ++
      if e.crashed && decide (now - e.now < RAPID_CRASH_WINDOW) then [e] else [] := by
  rw [rapidCrashes, List.filter_append, List.filter_singleton, ← rapidCrashes, Bool.cond_eq_ite]

theorem Remembers.quiet (h : Remembers before ts) (he : e.crashed = false) :
    Remembers (before ++ [e]) ts := by
  intro now hnow
  rw [rapidCrashes_concat, he, Bool.false_and, if_neg Bool.false_ne_true, List.append_nil]
  exact h now fun c hc => hnow c (List.mem_append_left _ hc)

/-- Forgetting what is no longer rapid loses nothing. -/
theorem Remembers.crash (h : Remembers before ts) (he : e.crashed = true) :
    Remembers (before ++ [e]) ((ts ++ [e.now]).filter fun t => e.now - t < RAPID_CRASH_WINDOW) := by
  intro now hnow
  have hbefore := h now fun c hc => hnow c (List.mem_append_left _ hc)
  have hlater : e.now ≤ now := hnow e (List.mem_append_right _ List.mem_cons_self)
  have hforget : ∀ t : Int, (decide (now - t < RAPID_CRASH_WINDOW) &&
      decide (e.now - t < RAPID_CRASH_WINDOW)) = decide (now - t < RAPID_CRASH_WINDOW) := by
    intro t
    rw [← Bool.decide_and, decide_eq_decide]
    omega
  rw [List.filter_filter, rapidCrashes_concat, List.map_append, ← hbefore, he, Bool.true_and]
  simp only [hforget, List.filter_append, List.filter_singleton, Bool.cond_eq_ite]
  split <;> rfl

/-- Among the remembered crashes are those that are rapid now. -/
theorem Remembers.length (h : Remembers before ts) (hlast : ∀ c ∈ before, c.now ≤ e.now) :
    ((ts ++ [e.now]).filter fun t => e.now - t < RAPID_CRASH_WINDOW).length =
      (rapidCrashes before e.now).length + 1 := by
  have hself : e.now - e.now < RAPID_CRASH_WINDOW := by
    rw [Int.sub_self]
    decide
  rw [List.filter_append, h e.now hlast, List.filter_singleton, decide_eq_true hself,
    List.length_append, List.length_map]
  rfl

/-! ## The end of the watch -/

/-- What the whole history makes of an exit: the reason to stop. -/
def endingOf (sha256 : List UInt8 → String) (before : List ServerExit) (e : ServerExit) (v : Venv) :
    Option WatchEnd :=
  if e.restarts then
    match (installDependencies sha256 false e.pip { v with pyproject := e.pyproject }).1 with
    | .error err => some (.raised err)
    | .ok () => if e.interrupted then some (.raised .keyboardInterrupt) else none
  else if e.clean then some .clean
  else if 2 ≤ (rapidCrashes before e.now).length then some .gaveUp
  else if e.interrupted then some .interrupted
  else none

theorem watchTurn_endingOf (sha256 : List UInt8 → String) (v : Venv) (h : Remembers before ts)
    (hlast : ∀ c ∈ before, c.now ≤ e.now) :
    match endingOf sha256 before e v with
    | some why => (watchTurn sha256 ts e v).1 = .ended why
    | none => ∃ ts', (watchTurn sha256 ts e v).1 = .running ts' ∧
        Remembers (before ++ [e]) ts' := by
  have hlength := h.length hlast
  unfold endingOf watchTurn
  dsimp only
  by_cases hrestart : e.restarts
  · have hquiet : e.crashed = false := by
      rw [ServerExit.crashed, hrestart]
      rfl
    rw [if_pos hrestart, if_pos hrestart]
    rcases installDependencies sha256 false e.pip { v with pyproject := e.pyproject }
      with ⟨err | u, v'⟩
    · rfl
    · by_cases hinterrupted : e.interrupted
      · rw [if_pos hinterrupted]
        exact if_pos hinterrupted
      · rw [if_neg hinterrupted]
        exact ⟨ts, if_neg hinterrupted, h.quiet hquiet⟩
  rw [if_neg hrestart, if_neg hrestart]
  by_cases hclean : e.clean
  · rw [if_pos hclean, if_pos hclean]
  have hcrashed : e.crashed = true := by
    rw [ServerExit.crashed, Bool.eq_false_iff.2 hrestart, Bool.eq_false_iff.2 hclean]
    rfl
  rw [if_neg hclean, if_neg hclean, hlength]
  by_cases hrapid : 2 ≤ (rapidCrashes before e.now).length
  · rw [if_pos hrapid]
    exact congrArg Prod.fst (if_pos (Nat.succ_le_succ hrapid))
  · have hfew : ¬ MAX_RAPID_CRASHES ≤ (rapidCrashes before e.now).length + 1 :=
      fun hle => hrapid (Nat.le_of_succ_le_succ hle)
    rw [if_neg hrapid, if_neg hfew]
    by_cases hinterrupted : e.interrupted
    · rw [if_pos hinterrupted, if_pos hinterrupted]
    · rw [if_neg hinterrupted, if_neg hinterrupted]
      exact ⟨_, rfl, h.crash hcrashed⟩

theorem watch_concat (sha256 : List UInt8 → String) (before : List ServerExit) (e : ServerExit)
    (v : Venv) : runServerWithCrashWatch sha256 (before ++ [e]) v =
      watchStep sha256 (runServerWithCrashWatch sha256 before v) e := by
  rw [runServerWithCrashWatch, List.foldl_append, ← runServerWithCrashWatch]
  rfl

theorem watch_concat_of_running
    (h : (runServerWithCrashWatch sha256 before v).1 = .running ts) (e : ServerExit) :
    runServerWithCrashWatch sha256 (before ++ [e]) v =
      watchTurn sha256 ts e (runServerWithCrashWatch sha256 before v).2 := by
  rw [watch_concat, watchStep, h]

theorem watch_concat_of_over
    (h : (runServerWithCrashWatch sha256 before v).1 = .ended why) (e : ServerExit) :
    runServerWithCrashWatch sha256 (before ++ [e]) v =
      runServerWithCrashWatch sha256 before v := by
  rw [watch_concat, watchStep, h]

theorem remembers_nil : Remembers [] [] := fun _ _ => rfl

theorem remembers_of_running (hsorted : exits.Pairwise fun e e' => e.now ≤ e'.now)
    (h : (runServerWithCrashWatch sha256 exits v).1 = .running ts) : Remembers exits ts := by
  induction exits using List.reverseRecOn generalizing ts with
  | nil =>
    cases h
    exact remembers_nil
  | append_singleton before e ih =>
    obtain ⟨hbefore, -, hlast⟩ := List.pairwise_append.1 hsorted
    cases hrun : (runServerWithCrashWatch sha256 before v).1 with
    | ended why =>
      rw [watch_concat_of_over hrun, hrun] at h
      cases h
    | running ts' =>
      have hending := watchTurn_endingOf sha256 (runServerWithCrashWatch sha256 before v).2
        (ih hbefore hrun) fun c hc => hlast c hc e List.mem_cons_self
      rw [← watch_concat_of_running hrun e] at hending
      split at hending
      · cases hending.symm.trans h
      · obtain ⟨ts'', hts, hremembers⟩ := hending
        cases hts.symm.trans h
        exact hremembers

/-- An exit ends the watch that runs up to it just when the whole history says so. -/
theorem watch_concat_over_iff (hsorted : (before ++ [e]).Pairwise fun e e' => e.now ≤ e'.now)
    (h : (runServerWithCrashWatch sha256 before v).1 = .running ts) :
    (runServerWithCrashWatch sha256 (before ++ [e]) v).1 = .ended why ↔
      endingOf sha256 before e (runServerWithCrashWatch sha256 before v).2 = some why := by
  obtain ⟨hbefore, -, hlast⟩ := List.pairwise_append.1 hsorted
  have hending := watchTurn_endingOf sha256 (runServerWithCrashWatch sha256 before v).2
    (remembers_of_running hbefore h) fun c hc => hlast c hc e List.mem_cons_self
  rw [watch_concat_of_running h e]
  split at hending
  · rename_i why' hwhy
    rw [hending, hwhy]
    simp only [Watch.ended.injEq, Option.some.injEq]
  · rename_i hnone
    obtain ⟨ts', hts, -⟩ := hending
    rw [hts, hnone]
    exact ⟨nofun, nofun⟩

/-- The watch ends after the first exit of which the whole history says so: after a clean one,
after a crash with two others in the minute before it, after an interrupted pause, or where pip
fails. -/
theorem watch_over_iff (hsorted : exits.Pairwise fun e e' => e.now ≤ e'.now) :
    (runServerWithCrashWatch sha256 exits v).1 = .ended why ↔
      ∃ before e after ts, exits = before ++ e :: after ∧
        (runServerWithCrashWatch sha256 before v).1 = .running ts ∧
        endingOf sha256 before e (runServerWithCrashWatch sha256 before v).2 = some why := by
  induction exits using List.reverseRecOn with
  | nil =>
    refine ⟨nofun, ?_⟩
    rintro ⟨before, e, after, ts, hsplit, -⟩
    cases List.append_ne_nil_of_right_ne_nil before (List.cons_ne_nil e after) hsplit.symm
  | append_singleton init last ih =>
    have ih := ih (List.pairwise_append.1 hsorted).1
    cases hinit : (runServerWithCrashWatch sha256 init v).1 with
    | ended why' =>
      rw [watch_concat_of_over hinit, ih]
      constructor
      · rintro ⟨before, e, after, ts, rfl, h⟩
        exact ⟨before, e, after ++ [last], ts, by rw [List.append_assoc, List.cons_append], h⟩
      · rintro ⟨before, e, after, ts, hsplit, hrun, h⟩
        obtain rfl | ⟨after, z, rfl⟩ := List.eq_nil_or_concat' after
        · obtain ⟨rfl, -⟩ := List.append_inj' hsplit rfl
          cases hinit.symm.trans hrun
        · rw [← List.cons_append, ← List.append_assoc] at hsplit
          exact ⟨before, e, after, ts, (List.append_inj' hsplit rfl).1, hrun, h⟩
    | running ts =>
      rw [watch_concat_over_iff hsorted hinit]
      constructor
      · exact fun h => ⟨init, last, [], ts, rfl, hinit, h⟩
      · rintro ⟨before, e, after, ts', hsplit, hrun, h⟩
        obtain rfl | ⟨after, z, rfl⟩ := List.eq_nil_or_concat' after
        · obtain ⟨rfl, hlast⟩ := List.append_inj' hsplit rfl
          cases hlast
          exact h
        · rw [← List.cons_append, ← List.append_assoc] at hsplit
          have hover := ih.2 ⟨before, e, after, ts', (List.append_inj' hsplit rfl).1, hrun, h⟩
          cases hinit.symm.trans hover

/-! ## The dependencies that the server starts with -/

/-- What `main` does before it serves. A new virtual environment has no hash file. -/
def prepare (sha256 : List UInt8 → String) (created : Bool) (pip : Option LaunchExc) :
    Routine Venv LaunchExc Unit :=
  if created then do
    change fun v => { v with deps_hash := none, installed := none }
    installDependencies sha256 true pip
    -- the launcher runs again inside of it
    installDependencies sha256 false pip
  else installDependencies sha256 false pip

/-- A launch, with the exits of its server. -/
def launch (sha256 : List UInt8 → String) (created : Bool) (pip : Option LaunchExc)
    (exits : List ServerExit) (v : Venv) : Watch × Venv :=
  match prepare sha256 created pip v with
  | (.ok (), v) => runServerWithCrashWatch sha256 exits v
  | (.error e, v) => (.ended (.raised e), v)

inductive LaunchEvent where
  | edit (pyproject : Option (List UInt8))
  | launch (created : Bool) (pip : Option LaunchExc) (exits : List ServerExit)

inductive LaunchStep (sha256 : List UInt8 → String) : Venv → LaunchEvent → Venv → Prop where
  | edit : LaunchStep sha256 s (.edit p) { s with pyproject := p }
  | launch : LaunchStep sha256 s (.launch new pip es) (launch sha256 new pip es s).2

/-- The hash file tells what pip was last done with. -/
def Honest (sha256 : List UInt8 → String) (v : Venv) : Prop :=
  ∀ h ∈ v.deps_hash, ∃ p ∈ v.installed, computeDepsHash sha256 p = h

/-- What pip was last done with has the hash of the project. -/
def UpToDate (sha256 : List UInt8 → String) (v : Venv) : Prop :=
  ∃ p ∈ v.installed, computeDepsHash sha256 p = computeDepsHash sha256 v.pyproject

/-- Digests have no blanks at their ends. -/
def PlainHashes (sha256 : List UInt8 → String) : Prop :=
  ∀ p, strip (computeDepsHash sha256 p) = computeDepsHash sha256 p

theorem honest_installDependencies (hplain : PlainHashes sha256) (force : Bool)
    (pip : Option LaunchExc) : Triple (Honest sha256) (installDependencies sha256 force pip)
      (fun _ v => Honest sha256 v ∧ UpToDate sha256 v) (Honest sha256) := by
  intro v hv
  unfold installDependencies
  dsimp only
  split
  · rename_i hskip
    obtain ⟨h, hfile, hsame⟩ := Option.map_eq_some_iff.1 hskip.2
    obtain ⟨p, hp, hhash⟩ := hv h hfile
    rw [← hhash, hplain] at hsame
    refine ⟨fun u v' heq => ?_, nofun⟩
    cases heq
    exact ⟨hv, p, hp, hsame⟩
  · split
    · refine ⟨nofun, fun e v' heq => ?_⟩
      cases heq
      exact hv
    · refine ⟨fun u v' heq => ?_, nofun⟩
      cases heq
      refine ⟨?_, v.pyproject, rfl, rfl⟩
      rintro h ⟨⟩
      exact ⟨v.pyproject, rfl, rfl⟩

theorem honest_prepare (hplain : PlainHashes sha256) (created : Bool) (pip : Option LaunchExc) :
    Triple (Honest sha256) (prepare sha256 created pip)
      (fun _ v => Honest sha256 v ∧ UpToDate sha256 v) (Honest sha256) := by
  have hinstall := honest_installDependencies hplain
  refine triple_ite (fun _ => ?_) fun _ => hinstall false pip
  refine Triple.bind (triple_change (Q := fun _ => Honest sha256) fun v _ => nofun) fun _ => ?_
  refine Triple.bind (hinstall true pip) fun _ => ?_
  exact (hinstall false pip).mono (fun _ => And.left) (fun _ _ => id) fun _ => id

/-- A turn of the loop keeps the hash file honest, and goes on from a requested restart with what
the project needs. -/
theorem watchTurn_honest (hplain : PlainHashes sha256) (ts : List Int) (e : ServerExit)
    (h : Honest sha256 v) : Honest sha256 (watchTurn sha256 ts e v).2 ∧
      (e.restarts → ∀ ts', (watchTurn sha256 ts e v).1 = .running ts' →
        UpToDate sha256 (watchTurn sha256 ts e v).2) := by
  have hleft : Honest sha256 { v with pyproject := e.pyproject } := h
  obtain ⟨hok, herror⟩ := honest_installDependencies hplain false e.pip _ hleft
  unfold watchTurn
  dsimp only
  by_cases hrestart : e.restarts
  · rw [if_pos hrestart]
    rcases hinstall : installDependencies sha256 false e.pip { v with pyproject := e.pyproject }
      with ⟨err | u, v'⟩
    · exact ⟨herror err v' hinstall, nofun⟩
    · obtain ⟨hhonest, hready⟩ := hok u v' hinstall
      exact ⟨hhonest, fun _ _ _ => hready⟩
  · rw [if_neg hrestart]
    refine ⟨?_, fun hre => (hrestart hre).elim⟩
    repeat' split
    all_goals exact hleft

theorem watch_honest (hplain : PlainHashes sha256) (exits : List ServerExit)
    (h : Honest sha256 v) : Honest sha256 (runServerWithCrashWatch sha256 exits v).2 := by
  induction exits using List.reverseRecOn with
  | nil => exact h
  | append_singleton before e ih =>
    cases hrun : (runServerWithCrashWatch sha256 before v).1 with
    | ended why => rwa [watch_concat_of_over hrun]
    | running ts =>
      rw [watch_concat_of_running hrun]
      exact (watchTurn_honest hplain ts e ih).1

theorem honest_step (hplain : PlainHashes sha256) (hstep : LaunchStep sha256 v event v')
    (h : Honest sha256 v) : Honest sha256 v' := by
  cases hstep with
  | edit => exact h
  | launch =>
    rename_i created pip exits
    obtain ⟨hok, herror⟩ := honest_prepare hplain created pip v h
    unfold launch
    rcases hprepare : prepare sha256 created pip v with ⟨err | u, w⟩
    · exact herror err w hprepare
    · exact watch_honest hplain exits (hok u w hprepare).1

/-- The digest of a project of one byte. -/
def byteDigest (_ : List UInt8) : String :=
  "aaa9402664f1a41f40ebbc52c9993eb66aeb366602958fdfaa283b71e64db123"

theorem plainHashes_byteDigest : PlainHashes byteDigest := by
  have hdigest : strip (String.ofList ((byteDigest []).toList.take 16)) =
      String.ofList ((byteDigest []).toList.take 16) := by decide +kernel
  intro p
  cases p with
  | none => rfl
  | some data => exact hdigest

def byteVenv : Venv := ⟨some [104], none, none⟩

def byteExit (exit_code seconds : Int) : ServerExit :=
  ⟨some exit_code, seconds * 1000000, some [104], none, false⟩

/-- A restart between three crashes in 50 seconds. -/
theorem watch_over_crash_loop :
    (runServerWithCrashWatch byteDigest
      [byteExit 1 10, byteExit 1 30, byteExit 75 40, byteExit 1 60] byteVenv).1 = .ended .gaveUp :=
  (watch_over_iff (by decide)).2
    ⟨[byteExit 1 10, byteExit 1 30, byteExit 75 40], byteExit 1 60, [], [10000000, 30000000], rfl,
      rfl, rfl⟩

end ScottyCore
