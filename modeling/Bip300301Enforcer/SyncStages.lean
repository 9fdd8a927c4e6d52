import Bip300301Enforcer.RpcBlocks

/-! A sync of blocks with all its stages, and that it does nothing to the database but
connecting blocks and disconnecting the tip: what these keep, the sync keeps. -/
namespace Bip300301Enforcer
open Lib Chain BlockHandler Walk

/-- What happens around a sync of blocks: when it is cancelled, which transactions fail, the
block files, and the node. -/
structure SyncSurroundings where
  cancelled : ℕ → Bool
  fileCancelled : ℕ → Bool
  fault : ℕ → Bool
  mainBlocksDir : Option
    (BlockHash → Except BlockFilesError (List (Except BlockFilesError FileBlock)))
  chainstates : Option (List ChainstateInfo)
  rounds : List RpcInput

/-- What the stages before the last one leave behind: the blocks to fetch and the height of
the target, unless no block is missing at all. -/
structure BeforeRpc where
  result : Except SyncError (Option (List BlockHash × ℕ))
  dbs : Dbs
  events : List Event

/-- What a sync of blocks leaves behind. There is no result while blocks are fetched. -/
structure BlockSync where
  result : Option (Except (SyncError ⊕ RpcSyncError) (Option InvalidBlock))
  dbs : Dbs
  events : List Event

namespace BlockHandler

variable [Bitcoin] (h : BlockHandler)

/-- Sync from the block files, if there are any. An error is given up unless it left a gap. -/
def syncFromFiles (e : SyncSurroundings) (dbs : Dbs) (missing : List BlockHash)
    (mainTip : BlockHash) : Except SyncError Unit × FileSync :=
  match e.mainBlocksDir with
  | none => (.ok (),.start dbs missing)
  | some directory =>
    match h.syncFromDirectory e.fault e.fileCancelled directory dbs missing with
    | (.ok _,s) => (.ok (),s)
    | (.error err,s) =>
      if err.panics then (.error err,s)
      else
        match missingBlocksConnectToTip s.dbs s.missing mainTip with
        | .error e => (.error (.block e),s)
        | .ok true => (.ok (),s)
        | .ok false => (.error err,s)

def beforeRpc (fuel : ℕ) (e : SyncSurroundings) (dbs : Dbs) (mainTip : BlockHash) :
    Option BeforeRpc :=
  (startSync fuel dbs mainTip).map (fun start =>
    match start.result with
    | .error err => ⟨.error err,start.dbs,start.events⟩
    | .ok (missing,mainTipHeight) =>
      if missing.isEmpty then ⟨.ok none,start.dbs,start.events⟩
      else
        let stage := h.connectPreActivationBlocks e.cancelled start.dbs missing.reverse
        let events := start.events++stage.events
        match stage.result with
        | .error err => ⟨.error err,stage.dbs,events⟩
        | .ok _ =>
          match h.syncFromFiles e stage.dbs stage.missing mainTip with
          | (.error err,s) => ⟨.error err,s.dbs,events++s.events⟩
          | (.ok (),s) => ⟨.ok (some (s.missing,mainTipHeight)),s.dbs,events++s.events⟩)

/-- `sync_blocks`, with all its stages. -/
def syncAllBlocks (fuel : ℕ) (e : SyncSurroundings) (dbs : Dbs) (mainTip : BlockHash) :
    Option BlockSync :=
  (h.beforeRpc fuel e dbs mainTip).map (fun before =>
    match before.result with
    | .error err => ⟨some (.error (.inl err)),before.dbs,before.events⟩
    | .ok none => ⟨some (.ok none),before.dbs,before.events⟩
    | .ok (some (missing,mainTipHeight)) =>
      let s := RpcSync.run h before.dbs missing mainTipHeight e.chainstates e.rounds
      ⟨s.result.map (fun r => r.mapError .inr),s.dbs,before.events++s.events⟩)

/-- The stages before the last one, by their results. -/
theorem syncBlocks_eq (fuel : ℕ) (e : SyncSurroundings) (dbs : Dbs) (mainTip : BlockHash) :
    h.syncBlocks fuel e.cancelled e.fileCancelled e.fault e.mainBlocksDir dbs mainTip =
      (h.beforeRpc fuel e dbs mainTip).map
        (fun before => before.result.map (fun r => r.map (fun r => (before.dbs,r.1)))) := by
  unfold syncBlocks syncBeforeFiles beforeRpc
  cases startSync fuel dbs mainTip with
  | none => rfl
  | some start =>
    simp only [Option.map_some,Option.some.injEq]
    cases start.result with
    | error err => rfl
    | ok r =>
      obtain ⟨missing,mainTipHeight⟩ := r
      by_cases hempty : missing.isEmpty = true
      · simp [hempty,Except.map]
      · simp only [hempty,Bool.false_eq_true,if_false]
        cases (h.connectPreActivationBlocks e.cancelled start.dbs missing.reverse).result with
        | error err => rfl
        | ok n =>
          simp only [syncFromFiles]
          cases e.mainBlocksDir with
          | none => rfl
          | some directory =>
            simp only
            cases hfiles : h.syncFromDirectory e.fault e.fileCancelled directory
              (h.connectPreActivationBlocks e.cancelled start.dbs missing.reverse).dbs
              (h.connectPreActivationBlocks e.cancelled start.dbs missing.reverse).missing with
            | mk res s =>
              cases res with
              | ok n => rfl
              | error err =>
                simp only
                cases err.panics with
                | true => rfl
                | false =>
                  simp only [Bool.false_eq_true,if_false]
                  cases missingBlocksConnectToTip s.dbs s.missing mainTip with
                  | error err' => rfl
                  | ok connects => cases connects <;> rfl

theorem syncAllBlocks_error {fuel : ℕ} {e : SyncSurroundings} {dbs : Dbs} {mainTip : BlockHash}
    {err : SyncError} (hs : h.syncBlocks fuel e.cancelled e.fileCancelled e.fault e.mainBlocksDir dbs
      mainTip = some (.error err)) :
    (h.syncAllBlocks fuel e dbs mainTip).bind BlockSync.result = some (.error (.inl err)) := by
  rw [h.syncBlocks_eq] at hs
  obtain ⟨before,hbefore,hres⟩ := Option.map_eq_some_iff.mp hs
  cases hr : before.result with
  | error err' =>
    rw [hr] at hres
    obtain rfl : err' = err := Except.error.inj hres
    rw [syncAllBlocks,hbefore,Option.map_some,Option.bind_some,hr]
  | ok r =>
    rw [hr] at hres
    cases hres

end BlockHandler

section Keeps

variable [Bitcoin] {h : BlockHandler} {known : Block → Prop} {P : Dbs → List Event → Prop}
  {dbs dbs' : Dbs} {events events' : List Event}

/-- A property of the database and the events so far that is kept by connecting a block, in
full or below the activation height from its header, and by disconnecting the tip. -/
structure SyncKeeps (h : BlockHandler) (known : Block → Prop) (P : Dbs → List Event → Prop) :
    Prop where
  connect : ∀ {dbs dbs' events b event}, P dbs events → known b →
    h.connectBlock dbs b = .ok (event,dbs') → P dbs' (events++[event])
  fromHeader : ∀ {dbs dbs' events k n event}, P dbs events →
    dbs.blockHashes.height.get? k = some n → n < h.params.bip300ActivationHeight →
    connectBlockFromHeader dbs k = .ok (event,dbs') → P dbs' (events++[event])
  disconnect : ∀ {dbs dbs' events events'}, P dbs events →
    disconnectBlock dbs (currentEnforcerTip dbs) = .ok (events',dbs') → P dbs' (events++events')

theorem SyncKeeps.disconnectTo (hk : SyncKeeps h known P) {lastCommonAncestor : BlockHash} {fuel : ℕ}
    (hp : P dbs events)
    (hd : disconnectTo lastCommonAncestor fuel dbs = some (.ok (events',dbs'))) :
    P dbs' (events++events') := by
  induction fuel generalizing dbs events events' with
  | zero => cases hd
  | succ fuel ih =>
    unfold BlockHandler.disconnectTo at hd
    split_ifs at hd with htip
    · obtain ⟨rfl,rfl⟩ := Prod.mk.inj (Except.ok.inj (Option.some.inj hd))
      simpa using hp
    · cases hone : disconnectBlock dbs (currentEnforcerTip dbs) with
      | error err => simp [hone] at hd
      | ok r =>
        obtain ⟨events₁,dbs₁⟩ := r
        simp only [hone] at hd
        obtain ⟨rest,hrest,hd⟩ := Option.map_eq_some_iff.mp hd
        cases rest with
        | error err => cases hd
        | ok r =>
          obtain ⟨rfl,rfl⟩ := Prod.mk.inj (Except.ok.inj hd)
          rw [← List.append_assoc]
          exact ih (hk.disconnect hp hone) hrest

theorem SyncKeeps.startSync (hk : SyncKeeps h known P) {fuel : ℕ} {mainTip : BlockHash}
    {start : SyncStart} (hp : P dbs events) (hs : startSync fuel dbs mainTip = some start) :
    P start.dbs (events++start.events) := by
  have hsame : P dbs (events++[]) := by simpa using hp
  unfold BlockHandler.startSync at hs
  split at hs
  · obtain rfl := Option.some.inj hs
    exact hsame
  · obtain ⟨r,hr,rfl⟩ := Option.map_eq_some_iff.mp hs
    cases r with
    | error err => exact hsame
    | ok r =>
      obtain ⟨events',dbs'⟩ := r
      have hp' := hk.disconnectTo hp hr
      simp only
      split <;> exact hp'

theorem SyncKeeps.preActivationBatch (hk : SyncKeeps h known P) {n : ℕ}
    {missing rest : List BlockHash} (hp : P dbs events)
    (hb : h.preActivationBatch n dbs missing = .ok (events',rest,dbs')) :
    P dbs' (events++events') := by
  induction n generalizing dbs missing events events' with
  | zero =>
    cases hb
    simpa using hp
  | succ n ih =>
    cases missing with
    | nil =>
      cases hb
      simpa using hp
    | cons k missing =>
      obtain ⟨height,hheight,hb⟩ := Fallible.bind_ok.mp hb
      split_ifs at hb with hlt
      · obtain ⟨⟨event,dbs₁⟩,hone,hb⟩ := Fallible.bind_ok.mp hb
        obtain ⟨⟨events₁,missing₁,dbs₂⟩,hrest,hb⟩ := Fallible.bind_ok.mp hb
        cases hb
        have hp₁ := hk.fromHeader hp ((Database.get_ok _ _ _ _).mp hheight) hlt hone
        simpa using ih hp₁ hrest
      · cases hb
        simpa using hp

theorem SyncKeeps.preActivationLoop (hk : SyncKeeps h known P) (cancelled : ℕ → Bool) (fuel k : ℕ)
    (missing : List BlockHash) (hp : P dbs events) :
    P (h.preActivationLoop cancelled fuel k dbs missing).dbs
      (events++(h.preActivationLoop cancelled fuel k dbs missing).events) := by
  induction fuel generalizing dbs missing events k with
  | zero => simpa [BlockHandler.preActivationLoop] using hp
  | succ fuel ih =>
    unfold BlockHandler.preActivationLoop
    split_ifs with hcancel
    · simpa using hp
    · cases hb : h.preActivationBatch preActivationBatchSize dbs missing with
      | error err => simpa using hp
      | ok r =>
        obtain ⟨events₁,rest,dbs₁⟩ := r
        cases events₁ with
        | nil => simpa using hp
        | cons event events₁ =>
          simp only
          rw [← List.append_assoc]
          exact ih (k+1) rest (hk.preActivationBatch hp hb)

theorem SyncKeeps.connectPreActivationBlocks (hk : SyncKeeps h known P) (cancelled : ℕ → Bool)
    (missing : List BlockHash) (hp : P dbs events) :
    P (h.connectPreActivationBlocks cancelled dbs missing).dbs
      (events++(h.connectPreActivationBlocks cancelled dbs missing).events) := by
  unfold BlockHandler.connectPreActivationBlocks
  split_ifs with hzero
  · simpa using hp
  · exact hk.preActivationLoop cancelled _ 0 missing hp

theorem SyncKeeps.handleBlockBatch (hk : SyncKeeps h known P) {blocks : List Block}
    {r : Option InvalidBlock} (hknown : ∀ b ∈ blocks, known b) (hp : P dbs events)
    (hb : h.handleBlockBatch dbs blocks = .ok (r,events',dbs')) : P dbs' (events++events') := by
  induction blocks generalizing dbs events events' with
  | nil =>
    cases hb
    simpa using hp
  | cons b blocks ih =>
    unfold BlockHandler.handleBlockBatch at hb
    cases hone : h.connectBlock dbs b with
    | error err =>
      simp only [hone] at hb
      cases hf : err.fatality with
      | jfyi =>
        simp only [hf] at hb
        cases hb
        simpa using hp
      | fatal => simp [hf] at hb
      | panic => simp [hf] at hb
    | ok e =>
      obtain ⟨event,dbs₁⟩ := e
      simp only [hone] at hb
      obtain ⟨⟨r₁,events₁,dbs₂⟩,hrest,hb⟩ := Fallible.bind_ok.mp hb
      cases hb
      have hp₁ := hk.connect hp (hknown b List.mem_cons_self) hone
      simpa using ih (fun b' hb' => hknown b' (List.mem_cons_of_mem _ hb')) hp₁ hrest

theorem SyncKeeps.handleBlockBatchAndCommit (hk : SyncKeeps h known P) {blocks : List Block}
    (hknown : ∀ b ∈ blocks, known b) (hp : P dbs events) :
    P (h.handleBlockBatchAndCommit dbs blocks).dbs
      (events++(h.handleBlockBatchAndCommit dbs blocks).events) := by
  unfold BlockHandler.handleBlockBatchAndCommit
  cases hb : h.handleBlockBatch dbs blocks with
  | error err => simpa using hp
  | ok r => exact hk.handleBlockBatch hknown hp hb

end Keeps

section Files

variable {h : BlockHandler} {known : Block → Prop} {P : Dbs → List Event → Prop}
  {events : List Event} {s : FileSync}

structure FileSync.Kept (known : Block → Prop) (P : Dbs → List Event → Prop) (events : List Event)
    (s : FileSync) : Prop where
  kept : P s.dbs (events++s.events)
  pending : ∀ b ∈ s.pending, known b
  cached : ∀ e ∈ s.cache.blocks.entries, known e.2

theorem FileSync.Kept.stage (hs : s.Kept known P events) {block : Block} (hb : known block) :
    (s.stage block).Kept known P events := by
  refine ⟨hs.kept,?_,hs.cached⟩
  intro b hmem
  rcases List.mem_append.mp hmem with hmem | hmem
  · exact hs.pending b hmem
  · rwa [List.mem_singleton.mp hmem]

variable [Bitcoin]

theorem FileSync.Kept.cacheBlock (hs : s.Kept known P events) {block : Block} (hb : known block) :
    (s.cacheBlock block).Kept known P events := by
  refine ⟨hs.kept,hs.pending,?_⟩
  intro e he
  unfold FileSync.cacheBlock BlockCache.insert at he
  dsimp only at he
  split at he
  · exact hs.cached e he
  · obtain ⟨k,b⟩ := e
    have hget := OrderMap.mem_entries.mp he
    rw [OrderMap.get?_insert] at hget
    split at hget
    · exact Option.some.inj hget ▸ hb
    · exact hs.cached _ (List.mem_of_mem_drop (OrderMap.mem_entries.mpr hget))

omit [Bitcoin] in
theorem FileSync.Kept.remove (hs : s.Kept known P events) {k : BlockHash} {block : Block}
    {cache : BlockCache} (hr : s.cache.remove k = some (block,cache)) :
    known block ∧ ({ s with cache } : FileSync).Kept known P events := by
  obtain ⟨b,hb,he⟩ := Option.map_eq_some_iff.mp hr
  obtain ⟨rfl,rfl⟩ := Prod.mk.inj he
  have hmem := OrderMap.mem_entries.mpr hb
  exact ⟨hs.cached _ hmem,hs.kept,hs.pending,fun e he => hs.cached e (List.mem_of_mem_filter he)⟩

variable (hk : SyncKeeps h known P) (fault cancelled : ℕ → Bool)
include hk

theorem SyncKeeps.connectPendingBlocks (hs : s.Kept known P events) :
    (h.connectPendingBlocks fault s).2.Kept known P events := by
  have hbatch := hk.handleBlockBatchAndCommit hs.pending hs.kept
  have hp : P (h.handleBlockBatchAndCommit s.dbs s.pending).dbs
      (events++(s.events++(h.handleBlockBatchAndCommit s.dbs s.pending).events)) := by
    rwa [← List.append_assoc]
  unfold BlockHandler.connectPendingBlocks
  simp only
  split
  · exact ⟨hs.kept,hs.pending,hs.cached⟩
  · split
    · exact ⟨hs.kept,hs.pending,hs.cached⟩
    · exact ⟨hp,by simp,hs.cached⟩
    · split
      · exact ⟨hp,hs.pending,hs.cached⟩
      · exact ⟨hp,by simp,hs.cached⟩

theorem SyncKeeps.connectFullBatch (hs : s.Kept known P events) :
    (h.connectFullBatch fault s).2.Kept known P events := by
  unfold BlockHandler.connectFullBatch
  split_ifs
  · exact hk.connectPendingBlocks fault hs
  · exact hs

theorem SyncKeeps.connectRemaining (hs : s.Kept known P events) :
    (h.connectRemaining fault s).2.Kept known P events := by
  have hpending := hk.connectPendingBlocks fault hs
  unfold BlockHandler.connectRemaining
  split_ifs
  · exact hs
  · split <;> simp_all only

theorem SyncKeeps.processCachedBlocks (n : ℕ) (hs : s.Kept known P events) :
    (h.processCachedBlocks fault n s).2.Kept known P events := by
  induction n generalizing s with
  | zero => exact hs
  | succ n ih =>
    unfold BlockHandler.processCachedBlocks
    split
    · exact hs
    · split
      · exact hs
      · rename_i block cache hremove
        obtain ⟨hb,hs'⟩ := hs.remove hremove
        have hbatch := hk.connectFullBatch fault (hs'.stage hb)
        split
        · rename_i hc
          rw [hc] at hbatch
          exact ih hbatch
        · exact hbatch

/-- A block of the files is known, if its transactions can be parsed. -/
def FileBlock.Known (known : Block → Prop) (block : FileBlock) : Prop :=
  ∀ txdata, block.txdata = .ok txdata → known ⟨block.header,txdata⟩

omit hk in
omit [Bitcoin] in
theorem FileSync.Kept.found (hs : s.Kept known P events) (found : Bool) (iterations : ℕ) :
    ({ s with hasFoundStart := found, iterationsWithoutMatch := iterations } : FileSync).Kept known P
      events := ⟨hs.kept,hs.pending,hs.cached⟩

theorem SyncKeeps.handleFileBlock (firstMissingBlock : BlockHash) {block : FileBlock}
    (hb : block.Known known) (hs : s.Kept known P events) :
    (h.handleFileBlock fault firstMissingBlock block s).2.Kept known P events := by
  unfold BlockHandler.handleFileBlock
  split
  · split
    · exact hs
    · rename_i txdata htx
      exact hs.cacheBlock (hb txdata htx)
  · simp only
    split
    · exact ⟨hs.kept,hs.pending,hs.cached⟩
    · split
      · split
        · exact ⟨hs.kept,hs.pending,hs.cached⟩
        · rename_i txdata htx
          have hbatch := hk.connectFullBatch fault ((hs.found true 0).stage (hb txdata htx))
          split
          · rename_i hc
            rw [hc] at hbatch
            exact hk.processCachedBlocks fault _ hbatch
          · exact hbatch
      · split
        · exact ⟨hs.kept,hs.pending,hs.cached⟩
        · rename_i txdata htx
          have hfound := hs.found true s.iterationsWithoutMatch
          have hcached := hfound.cacheBlock (hb txdata htx)
          have hs' : ({ ({ s with hasFoundStart := true } : FileSync).cacheBlock
              ⟨block.header,txdata⟩ with
              iterationsWithoutMatch := s.iterationsWithoutMatch+1 } : FileSync).Kept known P
                events := ⟨hcached.kept,hcached.pending,hcached.cached⟩
          have hremaining := hk.connectRemaining fault hs'
          split
          · split <;> rename_i hc <;> rw [hc] at hremaining <;> exact hremaining
          · exact hs'

theorem SyncKeeps.checkShutdown (hs : s.Kept known P events) {r : Except SyncError Unit × FileSync}
    (hc : h.checkShutdown fault cancelled s = some r) : r.2.Kept known P events := by
  have hremaining := hk.connectRemaining fault hs
  unfold BlockHandler.checkShutdown at hc
  split at hc
  · split at hc <;> rename_i hcon <;> rw [hcon] at hremaining <;>
      obtain rfl := Option.some.inj hc <;> exact hremaining
  · cases hc

theorem SyncKeeps.fileLoop (firstMissingBlock : BlockHash)
    {entries : List (Except BlockFilesError FileBlock)}
    (hb : ∀ block, .ok block ∈ entries → block.Known known) (hs : s.Kept known P events) :
    (h.fileLoop fault cancelled firstMissingBlock entries s).2.Kept known P events := by
  induction entries generalizing s with
  | nil =>
    unfold BlockHandler.fileLoop
    split
    · rename_i hc
      exact hk.checkShutdown fault cancelled hs hc
    · exact ⟨hs.kept,hs.pending,hs.cached⟩
  | cons entry entries ih =>
    unfold BlockHandler.fileLoop
    split
    · rename_i hc
      exact hk.checkShutdown fault cancelled hs hc
    · have hs' : ({ s with iterationCount := s.iterationCount+1 } : FileSync).Kept known P events :=
        ⟨hs.kept,hs.pending,hs.cached⟩
      simp only
      split
      · exact hs'
      · rename_i block
        have hone := hk.handleFileBlock fault firstMissingBlock (hb block List.mem_cons_self) hs'
        split <;> rename_i hc <;> rw [hc] at hone
        · exact hone
        · exact hone
        · exact ih (fun b hmem => hb b (List.mem_cons_of_mem _ hmem)) hone

theorem SyncKeeps.syncFromDirectory {dbs : Dbs} {missing : List BlockHash}
    {directory : BlockHash → Except BlockFilesError (List (Except BlockFilesError FileBlock))}
    (hb : ∀ k entries, directory k = .ok entries → ∀ block, .ok block ∈ entries → block.Known known)
    (hp : P dbs events) :
    P (h.syncFromDirectory fault cancelled directory dbs missing).2.dbs
      (events++(h.syncFromDirectory fault cancelled directory dbs missing).2.events) := by
  have hstart : (FileSync.start dbs missing).Kept known P events :=
    ⟨by simpa [FileSync.start] using hp,by simp [FileSync.start],
      by simp [FileSync.start,BlockCache.new,OrderMap.empty]⟩
  have hinner : (h.syncFromDirectoryInner fault cancelled directory (.start dbs missing)).2.Kept
      known P events := by
    unfold BlockHandler.syncFromDirectoryInner
    split
    · exact hstart
    · split
      · exact hstart
      · rename_i firstMissingBlock rest hm answer entries hopen
        split
        · exact hstart
        · split
          · exact hstart
          · have hloop := hk.fileLoop fault cancelled firstMissingBlock (hb _ entries hopen) hstart
            split <;> rename_i hc <;> rw [hc] at hloop
            · exact hloop
            · have hremaining := hk.connectRemaining fault hloop
              split <;> rename_i hc <;> rw [hc] at hremaining <;> exact hremaining
  unfold BlockHandler.syncFromDirectory
  split
  · rename_i err s hi
    rw [hi] at hinner
    simp only
    split <;> exact hinner.kept
  · rename_i n s hi
    rw [hi] at hinner
    exact hinner.kept

end Files

section Rpc

variable [Bitcoin] {h : BlockHandler} {known : Block → Prop} {P : Dbs → List Event → Prop}
  {events : List Event} {s : RpcSync} {input : RpcInput}

theorem SyncKeeps.fetchBatch (hk : SyncKeeps h known P) (missing : List BlockHash) {batchEnd : ℕ}
    (hb : ∀ hashes blocks, input.blocks hashes = some blocks → ∀ b ∈ blocks, known b)
    (hp : P s.dbs (events++s.events)) :
    P (s.fetchBatch h missing input batchEnd).dbs
      (events++(s.fetchBatch h missing input batchEnd).events) := by
  unfold RpcSync.fetchBatch
  dsimp only
  split
  · exact hp
  · rename_i blocks hblocks
    have hbatch := hk.handleBlockBatchAndCommit (hb _ blocks hblocks) hp
    split
    · exact hp
    · split
      · rw [List.append_assoc] at hbatch
        split <;> exact hbatch
      · exact hp

theorem SyncKeeps.round (hk : SyncKeeps h known P) (missing : List BlockHash) (first : ℕ)
    (hb : ∀ hashes blocks, input.blocks hashes = some blocks → ∀ b ∈ blocks, known b)
    (hp : P s.dbs (events++s.events)) :
    P (s.round h missing first input).dbs (events++(s.round h missing first input).events) := by
  unfold RpcSync.round
  split_ifs
  · exact hp
  · exact hp
  · split
    · unfold RpcSync.wait
      split_ifs
      · exact hp
      · split <;> exact hp
    · exact hk.fetchBatch missing hb hp
  · exact hp

theorem SyncKeeps.rounds (hk : SyncKeeps h known P) (missing : List BlockHash) (first : ℕ)
    {inputs : List RpcInput} (hb : ∀ input ∈ inputs, ∀ hashes blocks, input.blocks hashes = some blocks →
      ∀ b ∈ blocks, known b) (hp : P s.dbs (events++s.events)) :
    P (inputs.foldl (RpcSync.round h missing first) s).dbs
      (events++(inputs.foldl (RpcSync.round h missing first) s).events) := by
  induction inputs generalizing s with
  | nil => exact hp
  | cons input inputs ih =>
    have hp' := hk.round missing first (hb input List.mem_cons_self) hp
    exact ih (fun i hi => hb i (List.mem_cons_of_mem _ hi)) hp'

end Rpc

section All

variable [Bitcoin] {h : BlockHandler} {known : Block → Prop} {P : Dbs → List Event → Prop}
  {dbs : Dbs} {events : List Event} {e : SyncSurroundings} {mainTip : BlockHash} {fuel : ℕ}

structure SyncSurroundings.Serves (known : Block → Prop) (e : SyncSurroundings) : Prop where
  files : ∀ directory ∈ e.mainBlocksDir, ∀ k entries, directory k = .ok entries →
    ∀ block, .ok block ∈ entries → block.Known known
  node : ∀ input ∈ e.rounds, ∀ hashes blocks, input.blocks hashes = some blocks →
    ∀ b ∈ blocks, known b

theorem SyncKeeps.syncFromFiles (hk : SyncKeeps h known P) (he : e.Serves known)
    (missing : List BlockHash) (mainTip : BlockHash) (hp : P dbs events) :
    P (h.syncFromFiles e dbs missing mainTip).2.dbs
      (events++(h.syncFromFiles e dbs missing mainTip).2.events) := by
  unfold BlockHandler.syncFromFiles
  split
  · simpa [FileSync.start] using hp
  · rename_i directory hdir
    have hfiles : P (h.syncFromDirectory e.fault e.fileCancelled directory dbs missing).2.dbs
        (events++(h.syncFromDirectory e.fault e.fileCancelled directory dbs missing).2.events) :=
      hk.syncFromDirectory e.fault e.fileCancelled (he.files directory hdir) hp
    split
    · rename_i hc
      rwa [hc] at hfiles
    · rename_i hc
      rw [hc] at hfiles
      split
      · exact hfiles
      · split <;> exact hfiles

theorem SyncKeeps.beforeRpc (hk : SyncKeeps h known P) (he : e.Serves known) {before : BeforeRpc}
    (hp : P dbs events) (hb : h.beforeRpc fuel e dbs mainTip = some before) :
    P before.dbs (events++before.events) := by
  obtain ⟨start,hstart,rfl⟩ := Option.map_eq_some_iff.mp hb
  have hp₁ := hk.startSync hp hstart
  split
  · exact hp₁
  · rename_i missing mainTipHeight hres
    split
    · exact hp₁
    · have hp₂ := hk.connectPreActivationBlocks e.cancelled missing.reverse hp₁
      rw [List.append_assoc] at hp₂
      dsimp only
      split
      · exact hp₂
      · have hp₃ := hk.syncFromFiles he
          (h.connectPreActivationBlocks e.cancelled start.dbs missing.reverse).missing mainTip hp₂
        rw [List.append_assoc] at hp₃
        split <;> rename_i hc <;> rw [hc] at hp₃ <;> exact hp₃

theorem SyncKeeps.syncAllBlocks (hk : SyncKeeps h known P) (he : e.Serves known) {r : BlockSync}
    (events : List Event) (hp : P dbs events) (hr : h.syncAllBlocks fuel e dbs mainTip = some r) :
    P r.dbs (events++r.events) := by
  obtain ⟨before,hbefore,rfl⟩ := Option.map_eq_some_iff.mp hr
  have hp₁ := hk.beforeRpc he hp hbefore
  split
  · exact hp₁
  · exact hp₁
  · rename_i missing mainTipHeight hres
    have hstart : P (RpcSync.start before.dbs e.chainstates).dbs
        (events++before.events++(RpcSync.start before.dbs e.chainstates).events) := by
      unfold RpcSync.start
      split <;> simpa using hp₁
    have hrun := hk.rounds missing (mainTipHeight+1-missing.length) he.node hstart
    rw [List.append_assoc] at hrun
    exact hrun

end All

section EmptyCall

variable [Bitcoin] {h : BlockHandler} {dbs : Dbs} {c : Chain}

/-- The sync of the block files gets at least one missing block exactly if it is not
configured, the target is in the active chain already, the target is not below the
activation height, or the sync is cancelled in the stage before. -/
theorem directoryCall_missing_iff {Dir : Type} (mainTip : BlockHash) (hd : Header) (n fuel : ℕ)
    (cancelled : ℕ → Bool) (dir : Option Dir) (hr : Reach h FreshTxids False dbs c)
    (hclosed : dbs.blockHashes.AncestorClosed)
    (hmain : dbs.blockHashes.header.get? mainTip = some hd)
    (hn : dbs.blockHashes.height.get? mainTip = some n) (hfuel : c.length < fuel) :
    (∀ dbs' missing d, h.directoryCall fuel cancelled dir dbs mainTip = some (dbs',missing,d) →
      missing ≠ []) ↔
    (dir = none ∨ mainTip ∈ c.map Block.blockHash ∨ h.params.bip300ActivationHeight ≤ n ∨
      ∃ j ≤ preActivationRounds (missingCount dbs c mainTip), cancelled j = true) := by
  obtain ⟨dbs',missing,hm,hstart⟩ := hr.missing (h := h) hclosed hmain hn
  obtain ⟨m,events,hstart⟩ := hstart fuel hfuel
  have hskip : missing = [] → h.syncBeforeFiles fuel cancelled dbs mainTip = some (.ok none) := by
    intro hnil
    simp [syncBeforeFiles,hstart,hnil]
  have herror : ∀ err, missing ≠ [] →
      (h.connectPreActivationBlocks cancelled dbs' missing).result = .error err →
      h.syncBeforeFiles fuel cancelled dbs mainTip = some (.error err) := by
    intro err hne hres
    simp [syncBeforeFiles,hstart,hne,hres]
  have hok : ∀ k, missing ≠ [] →
      (h.connectPreActivationBlocks cancelled dbs' missing).result = .ok k →
      h.syncBeforeFiles fuel cancelled dbs mainTip =
        some (.ok (some ((h.connectPreActivationBlocks cancelled dbs' missing).dbs,
          (h.connectPreActivationBlocks cancelled dbs' missing).missing))) := by
    intro k hne hres
    simp [syncBeforeFiles,hstart,hne,hres]
  cases dir with
  | none => simp [directoryCall]
  | some dir =>
    by_cases hnil : missing = []
    · simp [directoryCall,hskip hnil,← hm.empty,hnil]
    have hnot : mainTip ∉ c.map Block.blockHash := fun hmem => hnil (hm.empty.mpr hmem)
    by_cases hge : h.params.bip300ActivationHeight ≤ n
    · -- the target itself stays missing
      have hleft : (h.connectPreActivationBlocks cancelled dbs' missing).missing ≠ [] := by
        unfold connectPreActivationBlocks
        split
        · exact hnil
        · exact hm.tipped.preActivationLoop_atLeast hm.climb (by rw [hm.height]; exact hn) hge hnil
      refine ⟨fun _ => .inr (.inr (.inl hge)),fun _ dbs₁ missing₁ d hcall => ?_⟩
      cases hres : (h.connectPreActivationBlocks cancelled dbs' missing).result with
      | error err =>
        simp only [directoryCall,herror err hnil hres] at hcall
        cases hcall
      | ok k =>
        simp only [directoryCall,hok k hnil hres] at hcall
        obtain ⟨-,rfl,-⟩ := Prod.mk.inj (Option.some.inj hcall) |>.imp id Prod.mk.inj
        exact hleft
    · have hzero : h.params.bip300ActivationHeight ≠ 0 := by omega
      obtain ⟨hall,hcancel⟩ := hm.tipped.preActivationLoop_below (h := h) cancelled 0 hm.climb
        (by rw [hm.height]; exact hm.below (Nat.not_le.mp hge)) (Nat.lt_succ_self _)
      simp only [connectPreActivationBlocks,hzero,if_false] at herror hok
      simp only [Nat.zero_add] at hall hcancel
      rw [hm.count]
      by_cases hcan : ∃ j ≤ preActivationRounds missing.length, cancelled j = true
      · refine ⟨fun _ => .inr (.inr (.inr hcan)),fun _ dbs₁ missing₁ d hcall => ?_⟩
        simp only [directoryCall,herror _ hnil (hcancel hcan)] at hcall
        cases hcall
      · obtain ⟨hleft,k,hres⟩ := hall (fun j hj => by
          cases hc : cancelled j with
          | false => rfl
          | true => exact absurd ⟨j,hj,hc⟩ hcan)
        constructor
        · intro hne
          have hcall : h.directoryCall fuel cancelled (some dir) dbs mainTip =
              some ((h.preActivationLoop cancelled (missing.length+1) 0 dbs' missing).dbs,
                (h.preActivationLoop cancelled (missing.length+1) 0 dbs' missing).missing,dir) := by
            simp only [directoryCall,hok k hnil hres]
          exact absurd hleft (hne _ _ dir hcall)
        · rintro (hdir | hmem | hle | hc)
          · cases hdir
          · exact absurd hmem hnot
          · exact absurd hle hge
          · exact absurd hc hcan

end EmptyCall

section Sample

open Sample

namespace EmptyCallSample

def handler : BlockHandler := .new (.new .bitcoin .mainnet)

def blocks : List Block := blocksOn allZeros 0 [([],[]),([],[])]

def run : Dbs × Chain :=
  Call.runAll handler FreshTxids (blocks.zipIdx.map (fun e => .header e.1.header e.2))

def target : BlockHash := (blocks.getLastD ⟨⟨0,0,0,0,0,0⟩,[]⟩).blockHash

def directory (_ : BlockHash) : Except BlockFilesError (List (Except BlockFilesError FileBlock)) :=
  .ok []

def surroundings : SyncSurroundings :=
  ⟨fun _ => false,fun _ => false,fun _ => false,some directory,none,[]⟩

end EmptyCallSample

open EmptyCallSample

def EmptyCallSample.regtest : BlockHandler := .new (.new .bitcoin .regtest)

def EmptyCallSample.regtestRun : Dbs × Chain :=
  Call.runAll regtest FreshTxids (blocks.zipIdx.map (fun e => .header e.1.header e.2))

theorem directoryCall_missing_iff_sample :
    ∃ call, regtest.directoryCall 1 (fun _ => false) (some ()) regtestRun.1 target = some call ∧
      call.2.1 ≠ [] := by
  have hr : Reach regtest FreshTxids False regtestRun.1 regtestRun.2 :=
    Call.reach_runAll _ (by decide)
  obtain ⟨hd,hmain⟩ : ∃ hd, regtestRun.1.blockHashes.header.get? target = some hd :=
    (FinMap.contains_iff _ _).mp (by decide +kernel)
  have hsome : (regtest.directoryCall 1 (fun _ => false) (some ()) regtestRun.1
      target).isSome = true := by decide +kernel
  obtain ⟨call,hcall⟩ := Option.isSome_iff_exists.mp hsome
  refine ⟨call,hcall,?_⟩
  exact (directoryCall_missing_iff target hd 1 1 (fun _ => false) (some ()) hr (by decide +kernel)
    hmain (by decide +kernel) (by decide +kernel)).mpr (.inr (.inr (.inl (by decide +kernel))))
    _ _ _ hcall

/-- On the main network a sync to a block on top of genesis calls the sync of the block
files with nothing to do, which panics. -/
theorem directoryCall_missing_empty :
    (handler.directoryCall 1 (fun _ => false) (some directory) run.1 target).map
        (fun call => call.2.1) = some [] ∧
      (handler.syncAllBlocks 1 surroundings run.1 target).bind BlockSync.result =
        some (.error (.inl (.block (.panic .missingBlocksEmpty)))) := by
  refine ⟨by decide +kernel,handler.syncAllBlocks_error ?_⟩
  have hpanics : (handler.syncBlocks 1 (fun _ => false) (fun _ => false) (fun _ => false)
      (some directory) run.1 target).map (fun r => r.map (fun _ => ())) =
        some (.error (.block (.panic .missingBlocksEmpty))) := by decide +kernel
  obtain ⟨r,hr,he⟩ := Option.map_eq_some_iff.mp hpanics
  cases r with
  | error err =>
    obtain rfl : err = .block (.panic .missingBlocksEmpty) := Except.error.inj he
    exact hr
  | ok _ => cases he

end Sample

end Bip300301Enforcer
