import Bip300301Enforcer.SeedStore

/-! Which runs of the seed store keep the seed. A process that finds the legacy seed in
`seed.json` deletes the row at once, also when the directory with `seed.json` is not on the
disk yet. -/
namespace Bip300301Enforcer
namespace SeedSystem

variable {parses : String → Bool} {s s' : SeedSystem} {p : ℕ} {proc : SeedProc}

/-- The directory has `seed.json` with these contents, which are on the disk. -/
def Holds (s : SeedSystem) (file : SeedFile) : Prop := s.seedJson = some ⟨some file,some file⟩

/-- The only row that a process may delete has this seed. -/
def Migrates (s : SeedSystem) (legacyId : ℕ) (seed : StoredSeed) : Prop :=
  s.rows.length ≤ 1 ∧ ∀ row ∈ s.rows, row.id = legacyId → row.seed = some seed

/-- What a process knows about the file that it writes. -/
def WriteSound (s : SeedSystem) (w : SeedWrite) : Prop :=
  match w.stage with
  | .create | .write | .unlink false => True
  | .syncFile => w.temp.contents = some w.file
  | .link => w.temp = ⟨some w.file,some w.file⟩
  | .unlink true | .syncDir => s.Holds w.file

/-- What a process knows about the data directory. -/
def ProcSound (s : SeedSystem) : SeedProc → Prop
  | .selectRow => s.rows.length ≤ 1
  | .readFile legacyId seed | .readCreationTime legacyId seed => s.Migrates legacyId seed
  | .migrate legacyId w => s.Migrates legacyId w.file.seed ∧ s.WriteSound w
  | .verify legacyId file => s.Migrates legacyId file.seed
  | .delete legacyId => ∃ file, s.Holds file ∧ s.Migrates legacyId file.seed
  | .insert w => s.WriteSound w
  | _ => True

/-- What holds of the data directory: `seed.json` is complete, and stays what it is on the disk
once it is there. -/
structure DataSound (s : SeedSystem) : Prop where
  onDisk : ∀ data, s.onDisk = some data → s.seedJson = some data
  complete : ∀ data, s.seedJson = some data → ∃ file, data = ⟨some file,some file⟩
  reported : ∀ seed ∈ s.reported, ∃ file, s.onDisk = some ⟨some file,some file⟩ ∧ file.seed = seed

/-- What holds in every state of a run. -/
structure Sound (s : SeedSystem) : Prop where
  data : s.DataSound
  procs : ∀ p, s.ProcSound (s.procs p)

/-- Rows are only deleted, and `seed.json` only appears. -/
structure Grows (s s' : SeedSystem) : Prop where
  rows : s'.rows.Sublist s.rows
  seedJson : ∀ data, s.seedJson = some data → s'.seedJson = some data
  onDisk : ∀ data, s.onDisk = some data → s'.onDisk = some data

theorem Grows.refl (s : SeedSystem) : s.Grows s := ⟨.refl _,fun _ h => h,fun _ h => h⟩

theorem Migrates.mono {legacyId : ℕ} {seed : StoredSeed} (hm : s.Migrates legacyId seed)
    (hg : s.Grows s') : s'.Migrates legacyId seed :=
  ⟨Nat.le_trans hg.rows.length_le hm.1,fun row hrow => hm.2 row (hg.rows.subset hrow)⟩

theorem WriteSound.mono {w : SeedWrite} (hw : s.WriteSound w) (hg : s.Grows s') :
    s'.WriteSound w := by
  unfold WriteSound at *
  split at hw
  · trivial
  · trivial
  · trivial
  · exact hw
  · exact hw
  · exact hg.seedJson _ hw
  · exact hg.seedJson _ hw

theorem ProcSound.mono (hp : s.ProcSound proc) (hg : s.Grows s') : s'.ProcSound proc := by
  cases proc with
  | selectRow => exact Nat.le_trans hg.rows.length_le hp
  | readFile legacyId seed => exact Migrates.mono hp hg
  | readCreationTime legacyId seed => exact Migrates.mono hp hg
  | migrate legacyId w => exact ⟨hp.1.mono hg,hp.2.mono hg⟩
  | verify legacyId file => exact Migrates.mono hp hg
  | delete legacyId =>
    obtain ⟨file,hfile,hm⟩ := hp
    exact ⟨file,hg.seedJson _ hfile,hm.mono hg⟩
  | insert w => exact WriteSound.mono hp hg
  | _ => trivial

theorem Sound.goto {s₁ : SeedSystem} (hs : s.Sound) (hg : s.Grows s₁) (hdata : s₁.DataSound)
    (hprocs : s₁.procs = s.procs) (hp : s₁.ProcSound proc) : (s₁.goto p proc).Sound := by
  refine ⟨⟨hdata.onDisk,hdata.complete,hdata.reported⟩,fun p' => ?_⟩
  have hsame : ∀ proc', (s₁.goto p proc).ProcSound proc' ↔ s₁.ProcSound proc' := fun _ => Iff.rfl
  rw [hsame]
  by_cases hpp : p' = p
  · subst hpp
    simpa [SeedSystem.goto] using hp
  · have hother : (s₁.goto p proc).procs p' = s.procs p' := by
      simp [SeedSystem.goto,hpp,hprocs]
    rw [hother]
    exact (hs.procs p').mono hg

theorem Sound.stay (hs : s.Sound) (hp : s.ProcSound proc) : (s.goto p proc).Sound :=
  hs.goto (.refl s) hs.data rfl hp

theorem DataSound.readSeedFile (hd : s.DataSound) {file : SeedFile}
    (hr : s.readSeedFile = .ok (some file)) : s.Holds file := by
  unfold SeedSystem.readSeedFile at hr
  split at hr
  · cases hr
  · rename_i data hdata
    obtain ⟨file',rfl⟩ := hd.complete data hdata
    obtain rfl := Option.some.inj (Except.ok.inj hr)
    exact hdata

theorem Holds.readSeedFile {file : SeedFile} (hf : s.Holds file) :
    s.readSeedFile = .ok (some file) := by
  unfold SeedSystem.readSeedFile
  rw [show s.seedJson = some ⟨some file,some file⟩ from hf]

/-- A step of a write keeps the data directory in order. When the write is done, the directory
with the file is on the disk. -/
theorem Sound.writeStep (hs : s.Sound) {w : SeedWrite} (hw : s.WriteSound w) :
    s.Grows (s.writeStep w).1 ∧ (s.writeStep w).1.DataSound ∧ (s.writeStep w).1.procs = s.procs ∧
      (∀ w', (s.writeStep w).2 = .next w' → w'.file = w.file ∧ (s.writeStep w).1.WriteSound w') ∧
      ((s.writeStep w).2 = .done → (s.writeStep w).1.onDisk = some ⟨some w.file,some w.file⟩) := by
  obtain ⟨file,temp,stage⟩ := w
  cases stage with
  | create => exact ⟨.refl s,hs.data,rfl,by rintro w' ⟨⟩; exact ⟨rfl,trivial⟩,by rintro ⟨⟩⟩
  | write => exact ⟨.refl s,hs.data,rfl,by rintro w' ⟨⟩; exact ⟨rfl,rfl⟩,by rintro ⟨⟩⟩
  | syncFile =>
    refine ⟨.refl s,hs.data,rfl,?_,by rintro ⟨⟩⟩
    rintro w' ⟨⟩
    have hcontents : temp.contents = some file := hw
    exact ⟨rfl,by rw [hcontents]; rfl⟩
  | link =>
    obtain rfl : temp = ⟨some file,some file⟩ := hw
    simp only [SeedSystem.writeStep]
    cases hj : s.seedJson with
    | some data => exact ⟨.refl s,hs.data,rfl,by rintro w' ⟨⟩; exact ⟨rfl,trivial⟩,by rintro ⟨⟩⟩
    | none =>
      have hnone : s.onDisk = none := by
        cases hd : s.onDisk with
        | none => rfl
        | some data => simp [hs.data.onDisk data hd] at hj
      refine ⟨⟨.refl _,?_,fun _ h => h⟩,⟨?_,?_,hs.data.reported⟩,rfl,?_,by rintro ⟨⟩⟩
      · intro data hdata
        rw [hj] at hdata
        cases hdata
      · intro data hdata
        rw [hnone] at hdata
        cases hdata
      · intro data hdata
        exact ⟨file,(Option.some.inj hdata).symm⟩
      · rintro w' ⟨⟩
        exact ⟨rfl,rfl⟩
  | unlink published =>
    cases published with
    | true => exact ⟨.refl s,hs.data,rfl,by rintro w' ⟨⟩; exact ⟨rfl,hw⟩,by rintro ⟨⟩⟩
    | false => exact ⟨.refl s,hs.data,rfl,by rintro w' ⟨⟩,by rintro ⟨⟩⟩
  | syncDir =>
    have hholds : s.Holds file := hw
    refine ⟨⟨.refl _,fun _ h => h,hs.data.onDisk⟩,⟨fun _ h => h,hs.data.complete,?_⟩,rfl,
      by rintro w' ⟨⟩,fun _ => hholds⟩
    intro seed hseed
    obtain ⟨file',hd,hfile'⟩ := hs.data.reported seed hseed
    exact ⟨file',hs.data.onDisk _ hd,hfile'⟩

/-- What a step of a process can change. -/
structure StepKeeps (s s' : SeedSystem) : Prop where
  sound : s'.Sound
  grows : s.Grows s'

theorem StepKeeps.refl (hs : s.Sound) : StepKeeps s s := ⟨hs,.refl s⟩

theorem StepKeeps.stay (hs : s.Sound) (hp : s.ProcSound proc) : StepKeeps s (s.goto p proc) :=
  ⟨hs.stay hp,⟨.refl _,fun _ h => h,fun _ h => h⟩⟩

theorem StepKeeps.goto {s₁ : SeedSystem} (hs : s.Sound) (hg : s.Grows s₁) (hdata : s₁.DataSound)
    (hprocs : s₁.procs = s.procs) (hp : s₁.ProcSound proc) : StepKeeps s (s₁.goto p proc) :=
  ⟨hs.goto hg hdata hprocs hp,⟨hg.rows,hg.seedJson,hg.onDisk⟩⟩

theorem migrates_head {rows : List LegacyRow} {row : LegacyRow} {seed : StoredSeed}
    (hlegacy : s.legacy = some rows) (hlen : s.rows.length ≤ 1) (hrow : rows.head? = some row)
    (hseed : row.seed = some seed) : s.Migrates row.id seed := by
  refine ⟨hlen,fun row' hrow' _ => ?_⟩
  have hrows : s.rows = rows := by rw [SeedSystem.rows,hlegacy]; rfl
  rw [hrows] at hlen hrow'
  obtain ⟨rest,rfl⟩ : ∃ rest, rows = row::rest := by
    cases rows with
    | nil => cases hrow
    | cons x rest => exact ⟨rest,by rw [Option.some.inj hrow]⟩
  obtain rfl : rest = [] := List.eq_nil_of_length_eq_zero (by simp only [List.length_cons] at hlen; omega)
  rw [List.mem_singleton.mp hrow',hseed]

theorem Sound.step_countRows (hs : s.Sound) {now : ℕ} (hproc : s.procs p = .countRows) :
    StepKeeps s (s.step parses p now) := by
  simp only [SeedSystem.step,hproc]
  cases hlegacy : s.legacy with
  | none => exact .stay hs trivial
  | some rows =>
    dsimp only
    split
    · exact .stay hs trivial
    · rename_i hlen
      refine .stay hs ?_
      show s.rows.length ≤ 1
      rw [SeedSystem.rows,hlegacy]
      exact Nat.le_of_not_lt hlen

theorem Sound.step_selectRow (hs : s.Sound) {now : ℕ} (hproc : s.procs p = .selectRow) :
    StepKeeps s (s.step parses p now) := by
  have hknows := hs.procs p
  rw [hproc] at hknows
  simp only [SeedSystem.step,hproc]
  cases hlegacy : s.legacy with
  | none => exact .stay hs trivial
  | some rows =>
    dsimp only
    cases hrow : rows.head? with
    | none => exact .stay hs trivial
    | some row =>
      dsimp only
      cases hseed : row.seed with
      | none => exact .stay hs trivial
      | some seed => exact .stay hs (migrates_head hlegacy hknows hrow hseed)

theorem Sound.step_readFile (hs : s.Sound) {now legacyId : ℕ} {seed : StoredSeed}
    (hproc : s.procs p = .readFile legacyId seed) : StepKeeps s (s.step parses p now) := by
  have hknows := hs.procs p
  rw [hproc] at hknows
  simp only [SeedSystem.step,hproc]
  split
  · exact .stay hs trivial
  · rename_i existing hread
    split
    · rename_i heq
      exact .stay hs ⟨existing,hs.data.readSeedFile hread,by rw [heq]; exact hknows⟩
    · exact .stay hs trivial
  · split
    · exact .stay hs hknows
    · exact .stay hs trivial

theorem Sound.step_migrate (hs : s.Sound) {now legacyId : ℕ} {w : SeedWrite}
    (hproc : s.procs p = .migrate legacyId w) : StepKeeps s (s.step parses p now) := by
  have hknows := hs.procs p
  rw [hproc] at hknows
  obtain ⟨hg,hdata,hprocs,hnext,-⟩ := hs.writeStep hknows.2
  simp only [SeedSystem.step,hproc]
  split
  · rename_i s₁ w' heq
    rw [heq] at hg hdata hprocs hnext
    obtain ⟨hfile,hw'⟩ := hnext w' rfl
    exact .goto hs hg hdata hprocs ⟨by rw [hfile]; exact hknows.1.mono hg,hw'⟩
  · rename_i s₁ heq
    rw [heq] at hg hdata hprocs
    exact .goto hs hg hdata hprocs (hknows.1.mono hg)
  · rename_i s₁ heq
    rw [heq] at hg hdata hprocs
    exact .goto hs hg hdata hprocs trivial

theorem Sound.step_verify (hs : s.Sound) {now legacyId : ℕ} {file : SeedFile}
    (hproc : s.procs p = .verify legacyId file) : StepKeeps s (s.step parses p now) := by
  have hknows := hs.procs p
  rw [hproc] at hknows
  simp only [SeedSystem.step,hproc]
  split
  · rename_i written hread
    split
    · rename_i heq
      exact .stay hs ⟨written,hs.data.readSeedFile hread,by rw [heq]; exact hknows⟩
    · exact .stay hs trivial
  · exact .stay hs trivial

theorem Sound.step_delete (hs : s.Sound) {now legacyId : ℕ}
    (hproc : s.procs p = .delete legacyId) : StepKeeps s (s.step parses p now) := by
  simp only [SeedSystem.step,hproc]
  cases hlegacy : s.legacy with
  | none => exact .stay hs trivial
  | some rows =>
    have hrows : s.rows = rows := by rw [SeedSystem.rows,hlegacy]; rfl
    refine .goto hs ⟨?_,fun _ h => h,fun _ h => h⟩
      ⟨hs.data.onDisk,hs.data.complete,hs.data.reported⟩ rfl trivial
    rw [hrows]
    exact List.filter_sublist

theorem Sound.step_insert (hs : s.Sound) {now : ℕ} {w : SeedWrite}
    (hproc : s.procs p = .insert w) : StepKeeps s (s.step parses p now) := by
  have hknows := hs.procs p
  rw [hproc] at hknows
  obtain ⟨hg,hdata,hprocs,hnext,hdone⟩ := hs.writeStep hknows
  simp only [SeedSystem.step,hproc]
  split
  · rename_i s₁ w' heq
    rw [heq] at hg hdata hprocs hnext
    exact .goto hs hg hdata hprocs (hnext w' rfl).2
  · rename_i s₁ heq
    rw [heq] at hg hdata hprocs hdone
    refine .goto hs ⟨hg.rows,hg.seedJson,hg.onDisk⟩ ⟨hdata.onDisk,hdata.complete,?_⟩ hprocs trivial
    intro seed hseed
    rcases List.mem_cons.mp hseed with rfl | hseed
    · exact ⟨w.file,hdone rfl,rfl⟩
    · exact hdata.reported seed hseed
  · rename_i s₁ heq
    rw [heq] at hg hdata hprocs
    exact .goto hs hg hdata hprocs trivial

/-- A step of the migration or of an insertion. -/
theorem Sound.step (hs : s.Sound) (p now : ℕ) : StepKeeps s (s.step parses p now) := by
  cases hproc : s.procs p with
  | down =>
    simp only [SeedSystem.step,hproc]
    exact .refl hs
  | ready =>
    simp only [SeedSystem.step,hproc]
    exact .refl hs
  | hasTable =>
    simp only [SeedSystem.step,hproc]
    split
    · exact .stay hs trivial
    · exact .stay hs trivial
  | countRows => exact hs.step_countRows hproc
  | selectRow => exact hs.step_selectRow hproc
  | readFile legacyId seed => exact hs.step_readFile hproc
  | readCreationTime legacyId seed =>
    have hknows := hs.procs p
    rw [hproc] at hknows
    simp only [SeedSystem.step,hproc]
    exact .stay hs ⟨hknows,trivial⟩
  | migrate legacyId w => exact hs.step_migrate hproc
  | verify legacyId file => exact hs.step_verify hproc
  | delete legacyId => exact hs.step_delete hproc
  | checkMissing file =>
    simp only [SeedSystem.step,hproc]
    split
    · exact .stay hs trivial
    · exact .stay hs trivial
  | insert w => exact hs.step_insert hproc

theorem Sound.powerFailure (hs : s.Sound) : s.powerFailure.Sound ∧
    s.powerFailure.seedJson = s.onDisk ∧ s.powerFailure.onDisk = s.onDisk := by
  have hsame : s.onDisk.map (fun data => FileData.mk data.onDisk data.onDisk) = s.onDisk := by
    cases hd : s.onDisk with
    | none => rfl
    | some data =>
      obtain ⟨file,rfl⟩ := hs.data.complete data (hs.data.onDisk data hd)
      rfl
  refine ⟨⟨⟨fun _ h => h,?_,?_⟩,fun _ => trivial⟩,hsame,hsame⟩
  · intro data hdata
    simp only [SeedSystem.powerFailure,hsame] at hdata
    exact hs.data.complete data (hs.data.onDisk data hdata)
  · intro seed hseed
    obtain ⟨file,hd,hfile⟩ := hs.data.reported seed hseed
    exact ⟨file,by simp only [SeedSystem.powerFailure,hsame]; exact hd,hfile⟩

/-- An action other than a power failure. -/
theorem Sound.act_keeps (hs : s.Sound) {a : SeedAction} (ha : a ≠ .powerFailure) :
    StepKeeps s (s.act parses a) := by
  have hdata : ∀ {legacy : Option (List LegacyRow)}, legacy.getD [] = s.rows →
      StepKeeps s { s with legacy := legacy } := by
    intro legacy hrows
    have hg : s.Grows { s with legacy := legacy } :=
      ⟨by rw [← hrows]; exact .refl _,fun _ h => h,fun _ h => h⟩
    exact ⟨⟨⟨hs.data.onDisk,hs.data.complete,hs.data.reported⟩,fun p => (hs.procs p).mono hg⟩,hg⟩
  cases a with
  | new p =>
    simp only [act]
    split
    · exact .stay hs trivial
    · exact .refl hs
  | insertSeed p seed birthdayHeight now =>
    simp only [act]
    split
    · exact .stay hs trivial
    · exact .refl hs
  | step p now => exact hs.step p now
  | fail p =>
    simp only [act]
    split
    · exact .stay hs trivial
    · exact .stay hs trivial
    · exact .stay hs trivial
    · exact .stay hs trivial
  | kill p => exact .stay hs trivial
  | createTable => exact hdata rfl
  | dropLegacyWalletSeedsIfEmpty =>
    refine hdata ?_
    split
    · rename_i hempty
      rw [rows,hempty]
      rfl
    · rfl
  | powerFailure => exact absurd rfl ha

theorem Sound.act (hs : s.Sound) (a : SeedAction) : (s.act parses a).Sound := by
  by_cases ha : a = .powerFailure
  · rw [ha]
    exact hs.powerFailure.1
  · exact (hs.act_keeps ha).sound

theorem Sound.act_onDisk (hs : s.Sound) (a : SeedAction) {data : FileData}
    (hd : s.onDisk = some data) : (s.act parses a).onDisk = some data := by
  by_cases ha : a = .powerFailure
  · rw [ha]
    exact hs.powerFailure.2.2.trans hd
  · exact (hs.act_keeps ha).grows.onDisk data hd

theorem sound_boot (legacy : Option (List LegacyRow)) (file : Option SeedFile) :
    (boot legacy file).Sound := by
  refine ⟨⟨fun _ h => h,?_,by simp [boot]⟩,fun _ => trivial⟩
  intro data hdata
  obtain ⟨file',-,rfl⟩ := Option.map_eq_some_iff.mp hdata
  exact ⟨file',rfl⟩

theorem run_append (s : SeedSystem) (l l' : List SeedAction) :
    s.run parses (l++l') = (s.run parses l).run parses l' := List.foldl_append

theorem Sound.run (hs : s.Sound) (l : List SeedAction) : (s.run parses l).Sound := by
  induction l generalizing s with
  | nil => exact hs
  | cons a l ih => exact ih (hs.act a)

theorem Sound.run_onDisk (hs : s.Sound) (l : List SeedAction) {data : FileData}
    (hd : s.onDisk = some data) :
    (s.run parses l).onDisk = some data ∧ (s.run parses l).seedJson = some data := by
  induction l generalizing s with
  | nil => exact ⟨hd,hs.data.onDisk data hd⟩
  | cons a l ih => exact ih (hs.act a) (hs.act_onDisk a hd)

theorem Sound.run_seedJson (hs : s.Sound) (l : List SeedAction) (hl : .powerFailure ∉ l)
    {data : FileData} (hd : s.seedJson = some data) : (s.run parses l).seedJson = some data := by
  induction l generalizing s with
  | nil => exact hd
  | cons a l ih =>
    rw [List.mem_cons,not_or] at hl
    exact ih (hs.act a) hl.2 ((hs.act_keeps (Ne.symm hl.1)).grows.seedJson data hd)

/-- The seed is in a row or in a file that is on the disk. -/
def Durable (s : SeedSystem) (seed : StoredSeed) : Prop :=
  (∃ row ∈ s.rows, row.seed = some seed) ∨
    ∃ file, s.onDisk = some ⟨some file,some file⟩ ∧ file.seed = seed

theorem Promised.durable {seed : StoredSeed} (hs : s.Sound) (hp : s.Promised seed) :
    s.Durable seed := by
  rcases hp with hp | hp
  · exact .inr (hs.data.reported seed hp)
  · exact .inl hp

theorem Durable.readable {seed : StoredSeed} (hs : s.Sound) (hd : s.Durable seed) :
    s.Readable seed := by
  rcases hd with hrow | ⟨file,hdisk,hfile⟩
  · exact .inr hrow
  · exact .inl ⟨file,Holds.readSeedFile (hs.data.onDisk _ hdisk),hfile⟩

theorem Durable.powerFailure {seed : StoredSeed} (hs : s.Sound) (hd : s.Durable seed) :
    s.powerFailure.Durable seed := by
  rcases hd with hrow | ⟨file,hdisk,hfile⟩
  · exact .inl hrow
  · exact .inr ⟨file,by rw [hs.powerFailure.2.2]; exact hdisk,hfile⟩

theorem writeStep_legacy (s : SeedSystem) (w : SeedWrite) : (s.writeStep w).1.legacy = s.legacy := by
  unfold writeStep
  split
  · rfl
  · rfl
  · rfl
  · split
    · rfl
    · rfl
  · rfl
  · rfl

/-- A process that deletes no row leaves the table alone. -/
theorem step_legacy (s : SeedSystem) (p now : ℕ) (hp : ∀ legacyId, s.procs p ≠ .delete legacyId) :
    (s.step parses p now).legacy = s.legacy := by
  unfold step
  cases hproc : s.procs p with
  | down => rfl
  | ready => rfl
  | hasTable => rfl
  | countRows =>
    dsimp only
    split
    · rfl
    · rfl
  | selectRow =>
    dsimp only
    split
    · rfl
    · split
      · rfl
      · split
        · rfl
        · rfl
  | readFile legacyId seed =>
    dsimp only
    split
    · rfl
    · rfl
    · rfl
  | readCreationTime legacyId seed => rfl
  | migrate legacyId w =>
    have hlegacy := s.writeStep_legacy w
    dsimp only
    split
    all_goals
      rename_i heq
      rw [heq] at hlegacy
      exact hlegacy
  | verify legacyId file =>
    dsimp only
    split
    · rfl
    · rfl
  | delete legacyId => exact absurd hproc (hp legacyId)
  | checkMissing file => rfl
  | insert w =>
    have hlegacy := s.writeStep_legacy w
    dsimp only
    split
    all_goals
      rename_i heq
      rw [heq] at hlegacy
      exact hlegacy

/-- A row goes away only by a process that deletes it. -/
theorem mem_rows_act {row : LegacyRow} (hrow : row ∈ s.rows) (a : SeedAction) :
    row ∈ (s.act parses a).rows ∨ ∃ p now, a = .step p now ∧ s.procs p = .delete row.id := by
  cases a with
  | step p now =>
    by_cases hp : ∃ legacyId, s.procs p = .delete legacyId
    · obtain ⟨legacyId,hp⟩ := hp
      by_cases hid : row.id = legacyId
      · exact .inr ⟨p,now,rfl,by rw [hp,hid]⟩
      · left
        cases hlegacy : s.legacy with
        | none =>
          rw [rows,hlegacy] at hrow
          cases hrow
        | some rows =>
          have hmem : row ∈ rows := by
            rw [SeedSystem.rows,hlegacy] at hrow
            exact hrow
          simp only [act,step,hp,hlegacy]
          exact List.mem_filter.mpr ⟨hmem,by simpa using hid⟩
    · left
      rw [rows,act,step_legacy s p now (fun legacyId h => hp ⟨legacyId,h⟩)]
      exact hrow
  | new p =>
    left
    simp only [act]
    split
    · exact hrow
    · exact hrow
  | insertSeed p seed birthdayHeight now =>
    left
    simp only [act]
    split
    · exact hrow
    · exact hrow
  | fail p =>
    left
    simp only [act]
    split
    · exact hrow
    · exact hrow
    · exact hrow
    · exact hrow
  | kill p => exact .inl hrow
  | createTable => exact .inl hrow
  | dropLegacyWalletSeedsIfEmpty =>
    left
    have hne : s.legacy ≠ some [] := by
      intro hempty
      rw [rows,hempty] at hrow
      cases hrow
    simp only [act,if_neg hne]
    exact hrow
  | powerFailure => exact .inl hrow

theorem Durable.act {seed : StoredSeed} {a : SeedAction} (hs : s.Sound) (ha : s.DeletesSynced a)
    (hd : s.Durable seed) : (s.act parses a).Durable seed := by
  rcases hd with ⟨row,hrow,hseed⟩ | ⟨file,hdisk,hfile⟩
  · rcases mem_rows_act hrow a with hrow' | ⟨p,now,rfl,hp⟩
    · exact .inl ⟨row,hrow',hseed⟩
    · obtain ⟨data,hdata⟩ := Option.ne_none_iff_exists'.mp (ha p now row.id rfl hp row hrow rfl)
      have hknows := hs.procs p
      rw [hp] at hknows
      obtain ⟨file,hholds,hm⟩ := hknows
      obtain rfl := Option.some.inj ((hs.data.onDisk data hdata).symm.trans hholds)
      refine .inr ⟨file,hs.act_onDisk _ hdata,?_⟩
      exact Option.some.inj ((hm.2 row hrow rfl).symm.trans hseed)
  · exact .inr ⟨file,hs.act_onDisk a hdisk,hfile⟩

theorem Durable.run {seed : StoredSeed} {l : List SeedAction} (hs : s.Sound)
    (hl : ∀ done a rest, l = done++a::rest → (s.run parses done).DeletesSynced a)
    (hd : s.Durable seed) : (s.run parses l).Durable seed := by
  induction l generalizing s with
  | nil => exact hd
  | cons a l ih =>
    refine ih (hs.act a) (fun done a' rest hsplit => ?_) (hd.act hs (hl [] a l rfl))
    exact hl (a::done) a' rest (by rw [hsplit]; rfl)

/-- If a row is deleted while the directory with `seed.json` is not on the disk, then a power
failure loses the seed. -/
theorem lost_of_delete (parses : String → Bool) (now : ℕ) {legacyId : ℕ} {row : LegacyRow} (hs : s.Sound)
    (hp : s.procs p = .delete legacyId) (hrow : row ∈ s.rows) (hid : row.id = legacyId)
    (hdisk : s.onDisk = none) : ∃ seed, s.Promised seed ∧
      ¬ (s.act parses (.step p now)).powerFailure.Readable seed := by
  have hknows := hs.procs p
  rw [hp] at hknows
  obtain ⟨file,-,hlen,hseed⟩ := hknows
  refine ⟨file.seed,.inr ⟨row,hrow,hseed row hrow hid⟩,?_⟩
  cases hlegacy : s.legacy with
  | none =>
    rw [rows,hlegacy] at hrow
    cases hrow
  | some rows =>
    have hrows : s.rows = rows := by rw [SeedSystem.rows,hlegacy]; rfl
    rw [hrows] at hrow hlen
    obtain rfl : rows = [row] := by
      cases rows with
      | nil => cases hrow
      | cons x rest =>
        obtain rfl : rest = [] :=
          List.eq_nil_of_length_eq_zero (by simp only [List.length_cons] at hlen; omega)
        rw [List.mem_singleton.mp hrow]
    rintro (⟨file',hread,-⟩ | ⟨row',hrow',-⟩)
    · simp [act,step,hp,hlegacy,goto,powerFailure,readSeedFile,hdisk] at hread
    · simp [act,step,hp,hlegacy,goto,powerFailure,SeedSystem.rows,hid] at hrow'

/-- From any data directory, a run keeps every seed exactly when it deletes a row only after
the directory with `seed.json` has reached the disk. Once it has, `seed.json` never changes;
without a power failure, it does not change as soon as it is there. -/
theorem seed_never_lost_iff (parses : String → Bool) (legacy : Option (List LegacyRow))
    (file : Option SeedFile) (actions : List SeedAction) :
    (NeverLost parses (boot legacy file) actions ↔
      ∀ done a rest, actions = done++a::rest →
        ((boot legacy file).run parses done).DeletesSynced a) ∧
    ∀ done later rest data, actions = done++later++rest →
      (((boot legacy file).run parses done).onDisk = some data →
        ((boot legacy file).run parses (done++later)).seedJson = some data) ∧
      (((boot legacy file).run parses done).seedJson = some data → .powerFailure ∉ later →
        ((boot legacy file).run parses (done++later)).seedJson = some data) := by
  have hsound : ∀ l, ((boot legacy file).run parses l).Sound := (sound_boot legacy file).run
  refine ⟨⟨?_,?_⟩,?_⟩
  · intro hkeep done a rest hsplit p now legacyId ha hp row hrow hid hdisk
    subst ha
    obtain ⟨seed,hpromised,hlost⟩ := lost_of_delete parses now (hsound done) hp hrow hid hdisk
    have hread := (hkeep done [.step p now] rest (by rw [hsplit]; simp) seed hpromised).2
    rw [run_append] at hread
    exact hlost hread
  · intro hsynced done later rest hsplit seed hpromised
    have hd := (hpromised.durable (hsound done)).run (l := later) (hsound done)
      (fun done' a rest' hl => by
        rw [← run_append]
        exact hsynced (done++done') a (rest'++rest) (by rw [hsplit,hl]; simp))
    rw [← run_append] at hd
    have hs := hsound (done++later)
    exact ⟨hd.readable hs,(hd.powerFailure hs).readable hs.powerFailure.1⟩
  · intro done later rest data hsplit
    rw [run_append]
    exact ⟨fun hd => ((hsound done).run_onDisk later hd).2,
      fun hd hl => (hsound done).run_seedJson later hl hd⟩

section Sample

namespace SeedSample

def row : LegacyRow := ⟨1,none,some [1],some [2],some [3],some 1700000000⟩

def seed : StoredSeed := .encrypted [1] [2] [3] none

def steps (p n : ℕ) : List SeedAction := List.replicate n (.step p 0)

/-- The process is killed between the link and the sync of the directory. It is started again,
finds the seed in `seed.json`, and deletes the row. -/
def killed : List SeedAction := .new 0::steps 0 9++[.kill 0,.new 0]++steps 0 5

def recovered : List SeedAction := .new 0::steps 0 5

end SeedSample

open SeedSample

theorem seed_never_lost_iff_sample :
    ((boot (some [row]) (some ⟨1,0,none,seed⟩)).run (fun _ => false) recovered).rows = [] ∧
    NeverLost (fun _ => false) (boot (some [row]) (some ⟨1,0,none,seed⟩)) recovered := by
  refine ⟨by decide,
    (seed_never_lost_iff (fun _ => false) (some [row]) (some ⟨1,0,none,seed⟩) recovered).1.mpr ?_⟩
  intro done a rest _ p now legacyId _ _ row' _ _ hdisk
  have hkept : ((boot (some [row]) (some ⟨1,0,none,seed⟩)).run (fun _ => false) done).onDisk =
      some ⟨some ⟨1,0,none,seed⟩,some ⟨1,0,none,seed⟩⟩ := ((sound_boot _ _).run_onDisk done rfl).1
  rw [hkept] at hdisk
  cases hdisk

/-- After the recovery from a kill, a power failure loses the seed. -/
theorem seed_lost : ¬ ∀ (parses : String → Bool) (legacy : Option (List LegacyRow))
    (file : Option SeedFile) (actions : List SeedAction),
    NeverLost parses (boot legacy file) actions := by
  intro hall
  have hkeep := hall (fun _ => false) (some [row]) none killed [] killed [] (by simp) seed
    (.inr ⟨row,List.mem_singleton.mpr rfl,rfl⟩)
  rcases hkeep.2 with ⟨file,hread,-⟩ | ⟨row',hrow',-⟩
  · have hmissing : ((boot (some [row]) none).run (fun _ => false) ([]++killed)).powerFailure.readSeedFile
        = .ok none := by rfl
    rw [hmissing] at hread
    cases hread
  · have hrows : ((boot (some [row]) none).run (fun _ => false) ([]++killed)).powerFailure.rows = [] := by
      rfl
    rw [hrows] at hrow'
    cases hrow'

end Sample

end SeedSystem
end Bip300301Enforcer
