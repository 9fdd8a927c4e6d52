import Mathlib.Data.Nat.Basic
import Mathlib.Logic.Function.Basic

/-! The seed store of the wallet: the file `seed.json`, and the table of the producer's
database in which older versions kept the seed. Any number of processes work on one data
directory, each step of a process is one system call or one SQL statement, and the power may
fail at any time. -/
namespace Bip300301Enforcer

structure StoredKdfParams where
  memoryKib : ℕ
  iterations : ℕ
  parallelism : ℕ
deriving DecidableEq

inductive StoredSeed
  | plaintext (mnemonic : String)
  | encrypted (initializationVector ciphertextMnemonic keySalt : List UInt8)
      (kdf : Option StoredKdfParams)
deriving DecidableEq

structure SeedFile where
  version : ℕ
  createdAt : ℕ
  birthdayHeight : Option ℕ
  seed : StoredSeed
deriving DecidableEq

/-- A row of the legacy table `wallet_seeds`. -/
structure LegacyRow where
  id : ℕ
  plaintextMnemonic : Option String
  initializationVector : Option (List UInt8)
  ciphertextMnemonic : Option (List UInt8)
  keySalt : Option (List UInt8)
  creationTime : Option ℕ
deriving DecidableEq

/-- The seed of a row, unless its columns do not fit together. -/
def LegacyRow.seed (row : LegacyRow) : Option StoredSeed :=
  match row.plaintextMnemonic, row.initializationVector, row.ciphertextMnemonic, row.keySalt with
  | some mnemonic, none, none, none => some (.plaintext mnemonic)
  | none, some iv, some ciphertext, some keySalt => some (.encrypted iv ciphertext keySalt none)
  | _, _, _, _ => none

/-- A file, with the contents that processes see and those that are on the disk. A file that is
not written completely has none. -/
structure FileData where
  contents : Option SeedFile
  onDisk : Option SeedFile
deriving DecidableEq

/-- The next step of writing the seed file. -/
inductive WriteStage
  | create
  | write
  | syncFile
  | link
  | unlink (published : Bool)
  | syncDir
deriving DecidableEq

/-- A seed file that is being written. The name of its temporary file is unique, so that no
other process opens it, and it is closed before it is linked. -/
structure SeedWrite where
  file : SeedFile
  temp : FileData
  stage : WriteStage

/-- What a process does next with its seed store. -/
inductive SeedProc
  /-- The process has no seed store. -/
  | down
  | hasTable
  | countRows
  | selectRow
  | readFile (legacyId : ℕ) (legacySeed : StoredSeed)
  | readCreationTime (legacyId : ℕ) (legacySeed : StoredSeed)
  | migrate (legacyId : ℕ) (w : SeedWrite)
  | verify (legacyId : ℕ) (file : SeedFile)
  | delete (legacyId : ℕ)
  /-- The seed store is open and no call is running. -/
  | ready
  | checkMissing (file : SeedFile)
  | insert (w : SeedWrite)

/-- The data directory, the processes, and the seeds that were reported stored. The file
`seed.json` may be linked in the directory that processes see, and in the directory on the
disk. -/
structure SeedSystem where
  legacy : Option (List LegacyRow)
  seedJson : Option FileData
  onDisk : Option FileData
  procs : ℕ → SeedProc
  reported : List StoredSeed

inductive SeedAction
  /-- `SeedStore::new` is called. -/
  | new (p : ℕ)
  | insertSeed (p : ℕ) (seed : StoredSeed) (birthdayHeight : Option ℕ) (now : ℕ)
  | step (p now : ℕ)
  /-- The next step of a process fails, and its call returns an error. -/
  | fail (p : ℕ)
  | kill (p : ℕ)
  /-- The migrations of the producer create the table in a fresh database. -/
  | createTable
  | dropLegacyWalletSeedsIfEmpty
  | powerFailure
deriving DecidableEq

def currentVersion : ℕ := 1

def writeSeedFile (file : SeedFile) : SeedWrite := ⟨file,⟨none,none⟩,.create⟩

/-- How a step of a write ends. -/
inductive WriteResult
  | next (w : SeedWrite)
  | done
  | failed

namespace SeedSystem

def rows (s : SeedSystem) : List LegacyRow := s.legacy.getD []

def boot (legacy : Option (List LegacyRow)) (file : Option SeedFile) : SeedSystem :=
  let seedJson := file.map (fun f => FileData.mk (some f) (some f))
  ⟨legacy,seedJson,seedJson,fun _ => .down,[]⟩

def goto (s : SeedSystem) (p : ℕ) (next : SeedProc) : SeedSystem :=
  { s with procs := Function.update s.procs p next }

/-- Read `seed.json`. It may be missing, and it may be broken. -/
def readSeedFile (s : SeedSystem) : Except Unit (Option SeedFile) :=
  match s.seedJson with
  | none => .ok none
  | some data =>
    match data.contents with
    | some file => .ok (some file)
    | none => .error ()

/-- One step of `write_seed_file`. The link fails when there is a seed file. -/
def writeStep (s : SeedSystem) (w : SeedWrite) : SeedSystem × WriteResult :=
  match w.stage with
  | .create => (s,.next { w with stage := .write })
  | .write => (s,.next { w with temp := ⟨some w.file,none⟩, stage := .syncFile })
  | .syncFile => (s,.next { w with temp := ⟨w.temp.contents,w.temp.contents⟩, stage := .link })
  | .link =>
    match s.seedJson with
    | some _ => (s,.next { w with stage := .unlink false })
    | none => ({ s with seedJson := some w.temp },.next { w with stage := .unlink true })
  | .unlink published => (s,if published then .next { w with stage := .syncDir } else .failed)
  | .syncDir => ({ s with onDisk := s.seedJson },.done)

def parsesBack (parses : String → Bool) : StoredSeed → Bool
  | .plaintext mnemonic => parses mnemonic
  | .encrypted _ _ _ _ => true

/-- The next step of a process: `migrate_legacy_seed` up to `ready`, and then `insert_seed`. -/
def step (parses : String → Bool) (s : SeedSystem) (p now : ℕ) : SeedSystem :=
  match s.procs p with
  | .down => s
  | .ready => s
  | .hasTable => s.goto p (if s.legacy.isSome then .countRows else .ready)
  | .countRows =>
    match s.legacy with
    | none => s.goto p .down
    | some rows => s.goto p (if 1 < rows.length then .down else .selectRow)
  | .selectRow =>
    match s.legacy with
    | none => s.goto p .down
    | some rows =>
      match rows.head? with
      | none => s.goto p .ready
      | some row =>
        match row.seed with
        | none => s.goto p .down
        | some legacySeed => s.goto p (.readFile row.id legacySeed)
  | .readFile legacyId legacySeed =>
    match s.readSeedFile with
    | .error _ => s.goto p .down
    | .ok (some existing) => s.goto p (if existing.seed = legacySeed then .delete legacyId else .down)
    | .ok none =>
      s.goto p (if parsesBack parses legacySeed then .readCreationTime legacyId legacySeed else .down)
  | .readCreationTime legacyId legacySeed =>
    let row := s.rows.find? (fun row => row.id = legacyId)
    let createdAt := (row.bind LegacyRow.creationTime).getD now
    s.goto p (.migrate legacyId (writeSeedFile ⟨currentVersion,createdAt,none,legacySeed⟩))
  | .migrate legacyId w =>
    match s.writeStep w with
    | (s,.next w) => s.goto p (.migrate legacyId w)
    | (s,.done) => s.goto p (.verify legacyId w.file)
    | (s,.failed) => s.goto p .down
  | .verify legacyId file =>
    match s.readSeedFile with
    | .ok (some written) => s.goto p (if written = file then .delete legacyId else .down)
    | _ => s.goto p .down
  | .delete legacyId =>
    match s.legacy with
    | none => s.goto p .down
    | some rows =>
      { s with legacy := some (rows.filter (fun row => row.id ≠ legacyId)) }.goto p .ready
  | .checkMissing file =>
    s.goto p (if s.seedJson.isSome then .ready else .insert (writeSeedFile file))
  | .insert w =>
    match s.writeStep w with
    | (s,.next w) => s.goto p (.insert w)
    | (s,.done) => { s with reported := w.file.seed::s.reported }.goto p .ready
    | (s,.failed) => s.goto p .ready

/-- A power failure keeps what is on the disk, and the committed rows. -/
def powerFailure (s : SeedSystem) : SeedSystem :=
  let seedJson := s.onDisk.map (fun data => FileData.mk data.onDisk data.onDisk)
  { s with
    seedJson
    onDisk := seedJson
    procs := fun _ => .down }

def act (parses : String → Bool) (s : SeedSystem) : SeedAction → SeedSystem
  | .new p =>
    match s.procs p with
    | .down => s.goto p .hasTable
    | _ => s
  | .insertSeed p seed birthdayHeight now =>
    match s.procs p with
    | .ready => s.goto p (.checkMissing ⟨currentVersion,now,birthdayHeight,seed⟩)
    | _ => s
  | .step p now => s.step parses p now
  | .fail p =>
    match s.procs p with
    | .ready | .checkMissing _ | .insert _ => s.goto p .ready
    | _ => s.goto p .down
  | .kill p => s.goto p .down
  | .createTable => { s with legacy := some s.rows }
  | .dropLegacyWalletSeedsIfEmpty =>
    { s with legacy := if s.legacy = some [] then none else s.legacy }
  | .powerFailure => s.powerFailure

def run (parses : String → Bool) (s : SeedSystem) (actions : List SeedAction) : SeedSystem :=
  actions.foldl (act parses) s

/-- The seed can be read from `seed.json` or from the legacy table. -/
def Readable (s : SeedSystem) (seed : StoredSeed) : Prop :=
  (∃ file, s.readSeedFile = .ok (some file) ∧ file.seed = seed) ∨
    ∃ row ∈ s.rows, row.seed = some seed

def Promised (s : SeedSystem) (seed : StoredSeed) : Prop :=
  seed ∈ s.reported ∨ ∃ row ∈ s.rows, row.seed = some seed

/-- In a run, every seed can be read at all times after it was in the legacy table or was
reported stored, and would be after a power failure. -/
def NeverLost (parses : String → Bool) (s : SeedSystem) (actions : List SeedAction) : Prop :=
  ∀ done later rest, actions = done++later++rest → ∀ seed, (s.run parses done).Promised seed →
    (s.run parses (done++later)).Readable seed ∧
      (s.run parses (done++later)).powerFailure.Readable seed

/-- If the action deletes a row, then the directory with `seed.json` is on the disk. -/
def DeletesSynced (s : SeedSystem) (a : SeedAction) : Prop :=
  ∀ p now legacyId, a = .step p now → s.procs p = .delete legacyId →
    ∀ row ∈ s.rows, row.id = legacyId → s.onDisk ≠ none

end SeedSystem

end Bip300301Enforcer
