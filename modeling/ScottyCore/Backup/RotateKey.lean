import ScottyCore.Backup.Crypto
import ScottyCore.Backup.LocalDisk
import ScottyCore.Lib.Raise
import ScottyCore.Lib.Run

namespace ScottyCore
open Python FileSystem TransitionSystem
set_option autoImplicit true

/-! ## `backup/cli.py` -/

/-- What a command reads from: a terminal, with what is typed at its prompts, or a pipe. -/
structure Stdin where
  tty : Bool
  typed : List String
  piped : String

/-- `text.rstrip("\n")` -/
def stripNewlines (text : String) : String :=
  String.ofList (text.toList.reverse.dropWhile (· = '\n')).reverse

/-- `_resolve_passphrase`, of a value that is given -/
def resolvePassphrase (raw : String) (stdin : Stdin) : Except Exc (String × Stdin) :=
  if raw = "-" then
    if stdin.tty then
      match stdin.typed with
      | passphrase :: typed => .ok (passphrase, { stdin with typed })
      | [] => .error (.runtimeError "EOFError")
    else .ok (stripNewlines stdin.piped, { stdin with piped := "" })
  else .ok (raw, stdin)

/-- The arguments of `rotate-key`. -/
structure RotateArgs where
  infile : String
  outfile : String
  old_passphrase : String
  new_passphrase : String

/-- What `rotate-key` prints. -/
structure RotateReport where
  out : String
  size : Nat
  sha256 : String
  old_fingerprint : String
  new_fingerprint : String

section
variable {Data : Type} (libs : BackupLibraries Data)
variable (gpgDecrypt : Data → String → Except Exc Data) (cwd : List String)

/-- The passphrases of `rotate-key`: the old one is read first. -/
def RotateArgs.passphrases (args : RotateArgs) (stdin : Stdin) : Except Exc (String × String) := do
  let (old, stdin) ← resolvePassphrase args.old_passphrase stdin
  let (new, _) ← resolvePassphrase args.new_passphrase stdin
  if old = "" ∨ new = "" then
    .error (.python (.valueError "both --old-passphrase and --new-passphrase are required"))
  else .ok (old, new)

/-- `Path(name).read_bytes()` -/
def readBytes (name : String) (t : FileTree Data) : Except Exc Data :=
  if ∀ p ∈ targetParts cwd name, IsPart p then
    match t.stat (targetParts cwd name) with
    | some (.file data) => .ok data
    | some .dir => .error (faultExc .isADirectory)
    | none => .error (faultExc .notFound)
  else .error (faultExc .nullByte)

/-- `dst.parent.mkdir(parents=True, exist_ok=True)`, then `dst.write_bytes(data)` -/
def writeOps (name : String) (data : Data) : List (Op Data) :=
  [.makeDirs (targetParts cwd name).dropLast, .write (targetParts cwd name) data]

/-- What `rotate-key` writes, of the data that it reads. -/
def rotated (data : Data) (old new : String) : Except Exc Data := do
  encryptBundle libs (← decryptBundle gpgDecrypt data old) new

/-- `_cmd_rotate_key` -/
def cmdRotateKey (args : RotateArgs) (stdin : Stdin) (t : FileTree Data) :
    Except Exc RotateReport × FileTree Data :=
  let prepared : Except Exc (String × String × Data) := do
    let (old, new) ← args.passphrases stdin
    let data ← rotated libs gpgDecrypt (← readBytes cwd args.infile t) old new
    .ok (old, new, data)
  match prepared with
  | .error e => (.error e, t)
  | .ok (old, new, data) =>
    match runOps (writeOps cwd args.outfile data) t with
    | (some f, t) => (.error (faultExc f), t)
    | (none, t) => (.ok ⟨args.outfile, libs.size data, libs.sha256 data, fingerprint libs old,
        fingerprint libs new⟩, t)

/-- `_cmd_export` with the sink `download`, from the passphrase on -/
def cmdDownload (bundle : Data) (passphrase : Option String) (out : String) (stdin : Stdin)
    (t : FileTree Data) : Except Exc Unit × FileTree Data :=
  let prepared : Except Exc Data :=
    match passphrase with
    | none => .ok bundle
    | some raw => do
      let (passphrase, _) ← resolvePassphrase raw stdin
      if passphrase = "" then .ok bundle else encryptBundle libs bundle passphrase
  match prepared with
  | .error e => (.error e, t)
  | .ok data =>
    match runOps (writeOps cwd out data) t with
    | (some f, t) => (.error (faultExc f), t)
    | (none, t) => (.ok (), t)

end

/-! ## Files that hold an encrypted bundle -/

/-- What OpenPGP promises beyond that: every key but the empty one is taken for all data, and the
integrity check lets no other key through than the one that was used. -/
structure Sealed (libs : BackupLibraries Data) (gpgDecrypt : Data → String → Except Exc Data) :
    Prop where
  firstLine : ReadsFirstLine libs gpgDecrypt
  takes_iff : ∀ data file, (∃ out, libs.gpg data file = .ok out) ↔ ScottyCore.firstLine file ≠ ""
  exclusive : ∀ data file out file' plain, libs.gpg data file = .ok out →
    gpgDecrypt out file' = .ok plain → ScottyCore.firstLine file' = ScottyCore.firstLine file

/-- Data are a bundle under a key. -/
def SealedUnder (libs : BackupLibraries Data) (out bundle : Data) (key : String) : Prop :=
  ∃ file, libs.gpg bundle file = .ok out ∧ firstLine file = key

section
variable {Data : Type} {libs : BackupLibraries Data}
variable {gpgDecrypt : Data → String → Except Exc Data}
variable {out bundle plain : Data} {key passphrase old new : String}

theorem gpgKey_of_empty (h : normalisePassphrase passphrase = "") : gpgKey passphrase = "" := by
  rw [gpgKey, h]
  rfl

theorem encryptBundle_ok_iff (h : Sealed libs gpgDecrypt) :
    (∃ out, encryptBundle libs bundle passphrase = .ok out) ↔ gpgKey passphrase ≠ "" := by
  rw [gpgKey, ← h.takes_iff bundle]
  constructor
  · rintro ⟨out, hout⟩
    exact ⟨out, (encryptBundle_eq_ok.1 hout).2⟩
  · rintro ⟨out, hout⟩
    refine ⟨out, encryptBundle_eq_ok.2 ⟨fun hempty => ?_, hout⟩⟩
    exact (h.takes_iff bundle _).1 ⟨out, hout⟩ (gpgKey_of_empty hempty)

theorem sealedUnder_of_encrypt (h : encryptBundle libs bundle passphrase = .ok out) :
    SealedUnder libs out bundle (gpgKey passphrase) :=
  ⟨_, (encryptBundle_eq_ok.1 h).2, rfl⟩

theorem SealedUnder.key_ne (hs : SealedUnder libs out bundle key) (h : Sealed libs gpgDecrypt) :
    key ≠ "" := by
  obtain ⟨file, hgpg, rfl⟩ := hs
  exact (h.takes_iff bundle file).1 ⟨out, hgpg⟩

/-- A bundle under a key comes back with every passphrase of that key, and with no other. -/
theorem SealedUnder.decrypt_iff (hs : SealedUnder libs out bundle key)
    (h : Sealed libs gpgDecrypt) :
    decryptBundle gpgDecrypt out passphrase = .ok plain ↔
      gpgKey passphrase = key ∧ plain = bundle := by
  have hkey := hs.key_ne h
  obtain ⟨file, hgpg, rfl⟩ := hs
  have hsame : gpgKey passphrase = firstLine file →
      gpgDecrypt out (normalisePassphrase passphrase) = .ok bundle := by
    intro he
    rw [h.firstLine.decrypt, ← gpgKey, he, ← h.firstLine.decrypt]
    exact h.firstLine.inverse _ _ _ hgpg
  rw [decryptBundle]
  constructor
  · intro hplain
    split at hplain
    · cases hplain
    · have he := h.exclusive _ _ _ _ _ hgpg hplain
      rw [hsame he] at hplain
      exact ⟨he, (Except.ok.inj hplain).symm⟩
  · rintro ⟨he, rfl⟩
    rw [if_neg fun hempty => hkey (he ▸ gpgKey_of_empty hempty)]
    exact hsame he

/-- A rotation of a bundle under a key takes just the passphrases of that key. -/
theorem SealedUnder.rotated_iff (hs : SealedUnder libs out bundle key)
    (h : Sealed libs gpgDecrypt) :
    (∃ data, rotated libs gpgDecrypt out old new = .ok data) ↔
      gpgKey old = key ∧ gpgKey new ≠ "" := by
  constructor
  · rintro ⟨data, hdata⟩
    obtain ⟨plain, hplain, hencrypt⟩ := bind_eq_ok.1 hdata
    obtain ⟨hkey, rfl⟩ := (hs.decrypt_iff h).1 hplain
    exact ⟨hkey, (encryptBundle_ok_iff h).1 ⟨data, hencrypt⟩⟩
  · rintro ⟨hkey, hnew⟩
    have htakes : ∃ data, encryptBundle libs bundle new = .ok data :=
      (encryptBundle_ok_iff h).2 hnew
    obtain ⟨data, hencrypt⟩ := htakes
    exact ⟨data, bind_eq_ok.2 ⟨bundle, (hs.decrypt_iff h).2 ⟨hkey, rfl⟩, hencrypt⟩⟩

theorem SealedUnder.rotated (hs : SealedUnder libs out bundle key) (h : Sealed libs gpgDecrypt)
    (hdata : rotated libs gpgDecrypt out old new = .ok data) :
    gpgKey old = key ∧ SealedUnder libs data bundle (gpgKey new) := by
  obtain ⟨plain, hplain, hencrypt⟩ := bind_eq_ok.1 hdata
  obtain ⟨hkey, rfl⟩ := (hs.decrypt_iff h).1 hplain
  exact ⟨hkey, sealedUnder_of_encrypt hencrypt⟩

end

/-! ## The files after the commands -/

section
variable {Data : Type} {cwd : List String} {t t' : FileTree Data} {data : Data}

def placeFrom (cwd : List String) (name : String) : List String :=
  resolveParts (targetParts cwd name)

theorem find_of_readBytes {name : String} (h : readBytes cwd name t = .ok data) :
    t.find (placeFrom cwd name) = some (.file data) := by
  rw [readBytes] at h
  split at h
  · split at h
    · rename_i hstat
      cases h
      obtain ⟨q, hwalk, hfind⟩ := Option.bind_eq_some_iff.1 hstat
      obtain rfl : q = placeFrom cwd name := FileTree.walk_eq hwalk
      exact hfind
    · cases h
    · cases h
  · cases h

theorem find_of_writeOps {name : String} (h : runOps (writeOps cwd name data) t = (none, t')) :
    t'.find (placeFrom cwd name) = some (.file data) ∧
      ∀ q n, q ≠ placeFrom cwd name → t.find q = some n → t'.find q = some n := by
  refine ⟨?_, fun q n hne hq => ?_⟩
  · obtain ⟨f, hf, -⟩ | ⟨t₁, -, hwrite⟩ := runOps_pair h
    · cases hf
    · obtain ⟨-, hset, rfl⟩ := write_of_ok hwrite
      exact FileTree.find_set_self hset _
  · have hkept : (runOps (writeOps cwd name data) t).2.find q = some n := by
      apply find_runOps_of_some hq
      intro op hop
      rcases List.mem_pair.1 hop with rfl | rfl
      · exact List.not_mem_nil
      · exact fun hmem => hne (List.mem_singleton.1 hmem)
    rwa [h] at hkept

/-- What cannot be written leaves the files as they were. -/
theorem find_of_writeOps_fault {name : String}
    (h : runOps (writeOps cwd name data) t = (some f, t')) (hq : t.find q = some n) :
    t'.find q = some n := by
  have hkept := (Op.makeDirs (targetParts cwd name).dropLast).find_run_of_some hq
    List.not_mem_nil
  obtain ⟨g, -, hmake⟩ | ⟨t₁, hmake, hwrite⟩ := runOps_pair h
  · rwa [hmake] at hkept
  · rw [hmake] at hkept
    rwa [Op.eq_of_fault (fun _ hop => by cases hop) hwrite]

end

/-! ## Runs of commands -/

/-- The bundles that files hold, each with its key. -/
abbrev Vault (Data : Type) := List String → Option (Data × String)

def Vault.write (v : Vault Data) (path : List String) (content : Option (Data × String)) :
    Vault Data := fun q => if q = path then content else v q

/-- A command of the line, with what came of it. -/
inductive CliEvent (Data : Type) where
  | download (bundle : Data) (passphrase : Option String) (out : String) (stdin : Stdin)
    (result : Except Exc Unit)
  | rotateKey (args : RotateArgs) (stdin : Stdin) (result : Except Exc RotateReport)

inductive CliStep (libs : BackupLibraries Data) (gpgDecrypt : Data → String → Except Exc Data)
    (cwd : List String) : FileTree Data → CliEvent Data → FileTree Data → Prop where
  | download : cmdDownload libs cwd bundle passphrase out stdin s = (result, s') →
      CliStep libs gpgDecrypt cwd s (.download bundle passphrase out stdin result) s'
  | rotateKey : cmdRotateKey libs gpgDecrypt cwd args stdin s = (result, s') →
      CliStep libs gpgDecrypt cwd s (.rotateKey args stdin result) s'

/-- What a download puts into its file. -/
def sealedBy (bundle : Data) (passphrase : Option String) (stdin : Stdin) :
    Option (Data × String) :=
  match passphrase.map fun raw => resolvePassphrase raw stdin with
  | some (.ok (passphrase, _)) => if passphrase = "" then none else some (bundle, gpgKey passphrase)
  | _ => none

/-- A rotation moves a bundle to the key of its new passphrase. A command that fails does
nothing. -/
def CliEvent.update (cwd : List String) : CliEvent Data → Vault Data → Vault Data
  | .download bundle passphrase out stdin (.ok _), v =>
    v.write (placeFrom cwd out) (sealedBy bundle passphrase stdin)
  | .rotateKey args stdin (.ok _), v =>
    match args.passphrases stdin with
    | .ok (_, new) => v.write (placeFrom cwd args.outfile)
        ((v (placeFrom cwd args.infile)).map fun b => (b.1, gpgKey new))
    | .error _ => v
  | _, v => v

def vaultAfter (cwd : List String) (events : List (CliEvent Data)) (v : Vault Data) : Vault Data :=
  events.foldl (fun v e => e.update cwd v) v

/-- The files hold what the vault says. -/
def Guards (libs : BackupLibraries Data) (v : Vault Data) (t : FileTree Data) : Prop :=
  ∀ path bundle key, v path = some (bundle, key) →
    ∃ out, t.find path = some (.file out) ∧ SealedUnder libs out bundle key

section
variable {Data : Type} {libs : BackupLibraries Data} {v : Vault Data} {t t' : FileTree Data}
variable {gpgDecrypt : Data → String → Except Exc Data} {cwd : List String} {data : Data}

theorem Guards.mono (h : Guards libs v t)
    (hkept : ∀ q n, t.find q = some n → t'.find q = some n) : Guards libs v t' := by
  intro path bundle key hpath
  obtain ⟨out, hfind, hs⟩ := h path bundle key hpath
  exact ⟨out, hkept path _ hfind, hs⟩

theorem Guards.write {name : String} {content : Option (Data × String)} (h : Guards libs v t)
    (hwrite : runOps (writeOps cwd name data) t = (none, t'))
    (hdata : ∀ b ∈ content, SealedUnder libs data b.1 b.2) :
    Guards libs (v.write (placeFrom cwd name) content) t' := by
  obtain ⟨hself, hother⟩ := find_of_writeOps hwrite
  intro path bundle key hpath
  rw [Vault.write] at hpath
  split at hpath
  · rename_i he
    subst he
    exact ⟨data, hself, hdata _ hpath⟩
  · rename_i hne
    obtain ⟨out, hfind, hs⟩ := h path bundle key hpath
    exact ⟨out, hother path _ hne hfind, hs⟩

/-- A download fails and keeps the files, or writes the bundle as it seals it. -/
theorem cmdDownload_cases {result : Except Exc Unit}
    (h : cmdDownload libs cwd bundle passphrase out stdin t = (result, t')) :
    (∃ e, result = .error e ∧ ∀ q n, t.find q = some n → t'.find q = some n) ∨
      ∃ data, result = .ok () ∧ runOps (writeOps cwd out data) t = (none, t') ∧
        ∀ b ∈ sealedBy bundle passphrase stdin, SealedUnder libs data b.1 b.2 := by
  unfold cmdDownload at h
  dsimp only at h
  split at h
  · cases h
    exact .inl ⟨_, rfl, fun _ _ hq => hq⟩
  · rename_i data hprepared
    split at h
    · rename_i f t₁ hwrite
      cases h
      exact .inl ⟨_, rfl, fun q n hq => find_of_writeOps_fault hwrite hq⟩
    · rename_i t₁ hwrite
      cases h
      refine .inr ⟨data, rfl, hwrite, fun b hb => ?_⟩
      cases passphrase with
      | none => cases hb
      | some raw =>
        obtain ⟨⟨passphrase, rest⟩, hresolve, hdata⟩ := bind_eq_ok.1 hprepared
        dsimp only at hdata
        rw [sealedBy, Option.map_some, hresolve] at hb
        dsimp only at hb
        split at hb
        · cases hb
        · rename_i hne
          cases hb
          rw [if_neg hne] at hdata
          exact sealedUnder_of_encrypt hdata

/-- A rotation fails and keeps the files, or writes what it rotates. -/
theorem cmdRotateKey_cases {args : RotateArgs} {result : Except Exc RotateReport}
    (h : cmdRotateKey libs gpgDecrypt cwd args stdin t = (result, t')) :
    (∃ e, result = .error e ∧ ∀ q n, t.find q = some n → t'.find q = some n) ∨
      ∃ report old new found data, result = .ok report ∧ args.passphrases stdin = .ok (old, new) ∧
        readBytes cwd args.infile t = .ok found ∧
        rotated libs gpgDecrypt found old new = .ok data ∧
        runOps (writeOps cwd args.outfile data) t = (none, t') := by
  unfold cmdRotateKey at h
  dsimp only at h
  split at h
  · cases h
    exact .inl ⟨_, rfl, fun _ _ hq => hq⟩
  · rename_i old new data hprepared
    obtain ⟨⟨old', new'⟩, hpassphrases, hprepared⟩ := bind_eq_ok.1 hprepared
    obtain ⟨found, hread, hprepared⟩ := bind_eq_ok.1 hprepared
    obtain ⟨data', hrotated, hprepared⟩ := bind_eq_ok.1 hprepared
    cases hprepared
    split at h
    · rename_i f t₁ hwrite
      cases h
      exact .inl ⟨_, rfl, fun q n hq => find_of_writeOps_fault hwrite hq⟩
    · rename_i t₁ hwrite
      cases h
      exact .inr ⟨_, _, _, _, _, rfl, hpassphrases, hread, hrotated, hwrite⟩

theorem guards_step (h : Sealed libs gpgDecrypt) (hstep : CliStep libs gpgDecrypt cwd t e t')
    (hv : Guards libs v t) : Guards libs (e.update cwd v) t' := by
  cases hstep with
  | download hrun =>
    obtain ⟨e, rfl, hkept⟩ | ⟨data, rfl, hwrite, hsealed⟩ := cmdDownload_cases hrun
    · exact hv.mono hkept
    · exact hv.write hwrite hsealed
  | rotateKey hrun =>
    obtain ⟨e, rfl, hkept⟩ |
      ⟨report, old, new, found, data, rfl, hpassphrases, hread, hrotated, hwrite⟩ :=
        cmdRotateKey_cases hrun
    · exact hv.mono hkept
    · rw [CliEvent.update, hpassphrases]
      refine hv.write hwrite fun b hb => ?_
      obtain ⟨⟨bundle, key⟩, hfrom, rfl⟩ := Option.map_eq_some_iff.1 hb
      obtain ⟨out, hfind, hs⟩ := hv _ bundle key hfrom
      cases (find_of_readBytes hread).symm.trans hfind
      exact (hs.rotated h hrotated).2

end

/-- With both passphrases from a pipe the new one is always empty. -/
theorem passphrases_of_pipe (args : RotateArgs) (stdin : Stdin) (htty : stdin.tty = false)
    (hold : args.old_passphrase = "-") (hnew : args.new_passphrase = "-") :
    args.passphrases stdin = .error
      (.python (.valueError "both --old-passphrase and --new-passphrase are required")) := by
  have hempty : stripNewlines "" = "" := rfl
  simp [RotateArgs.passphrases, resolvePassphrase, hold, hnew, htty, hempty, Bind.bind,
    Except.bind]

/-! ## A rotation -/

theorem sealed_keyed : Sealed .keyed keyedDecrypt where
  firstLine := readsFirstLine_keyed
  takes_iff data file := by
    constructor
    · rintro ⟨out, hout⟩ hempty
      cases hout.symm.trans (if_pos hempty)
    · exact fun hne => ⟨firstLine file :: data, if_neg hne⟩
  exclusive data file out file' plain hout hplain := by
    have hgpg : keyedGpg data file = .ok out := hout
    rw [keyedGpg] at hgpg
    split at hgpg
    · cases hgpg
    · cases hgpg
      rw [keyedDecrypt] at hplain
      split at hplain
      · assumption
      · cases hplain

def vaultDisk : FileTree (List String) := (∅ : FileTree (List String)).set ["data"] (some .dir)

def noInput : Stdin := ⟨false, [], ""⟩

def vaultArgs : RotateArgs := ⟨"a.gpg", "new/b.gpg", "pw\n", "line1"⟩

def downloaded : FileTree (List String) :=
  (cmdDownload .keyed ["data"] ["bundle"] (some "pw") "a.gpg" noInput vaultDisk).2

def vaultReport : RotateReport := ⟨"new/b.gpg", 2, "", "30c952fa", "815750a4"⟩

theorem run_vault : Run (CliStep .keyed keyedDecrypt ["data"]) vaultDisk
    [.download ["bundle"] (some "pw") "a.gpg" noInput (.ok ()),
      .rotateKey vaultArgs noInput (.ok vaultReport)]
    (cmdRotateKey .keyed keyedDecrypt ["data"] vaultArgs noInput downloaded).2 :=
  .snoc (.snoc .nil (.download rfl)) (.rotateKey rfl)

end ScottyCore
