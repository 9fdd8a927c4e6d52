import Bip300301Enforcer.SyncBlocks

/-! The last stage of a sync of blocks: the blocks that are still missing are fetched from the
node over JSON-RPC. While the node validates an assumeutxo snapshot in the background, it
lacks the blocks above its background chain, up to the base of the snapshot. -/
namespace Bip300301Enforcer
open Lib Chain BlockHandler Walk

/-- One entry of `getchainstates`. -/
structure ChainstateInfo where
  blocks : Option ℕ
  snapshotBlockhash : Option BlockHash
  validated : Option Bool

structure BackgroundSync where
  snapshotBlockhash : BlockHash
  backgroundHeight : ℕ

/-- The ways in which the stage fails. -/
inductive RpcSyncError
  | shutdown
  | jsonRpc
  | missingBackgroundChainstate
  | snapshotBaseHeaderUnknown (snapshotBlockhash : BlockHash)
  | fetchBlocks
  | block (err : Error)
  | transaction
deriving DecidableEq

/-- The snapshot that the node is still validating. A background chainstate without a tip
has nothing but the first block. -/
def backgroundSync (chainstates : List ChainstateInfo) :
    Except RpcSyncError (Option BackgroundSync) :=
  match chainstates.findSome? (fun chainstate =>
      chainstate.snapshotBlockhash.filter (fun _ => chainstate.validated ≠ some true)) with
  | none => .ok none
  | some snapshotBlockhash => do
    let backgroundHeight ← Fallible.require
      ((chainstates.filter (fun chainstate => chainstate.snapshotBlockhash.isNone)).map
        (fun chainstate => chainstate.blocks.getD 0)).max? .missingBackgroundChainstate
    return some ⟨snapshotBlockhash,backgroundHeight⟩

/-- The heights that the node has no block data for: above the background height, up to and
including the base of the snapshot. -/
structure BlockDataGap where
  backgroundHeight : ℕ
  snapshotBaseHeight : ℕ
deriving DecidableEq

def BlockDataGap.contains (gap : BlockDataGap) (height : ℕ) : Bool :=
  gap.backgroundHeight < height && height ≤ gap.snapshotBaseHeight

/-- The gap that the node's answer tells of. The height of the base is the one that is
stored. -/
def blockDataGap (dbs : BlockHashDbs) (answer : Option (List ChainstateInfo)) :
    Except RpcSyncError (Option BlockDataGap) := do
  let chainstates ← Fallible.require answer .jsonRpc
  match ← backgroundSync chainstates with
  | none => return none
  | some backgroundSync =>
    let snapshotBaseHeight ← Fallible.require (dbs.height.get? backgroundSync.snapshotBlockhash)
      (.snapshotBaseHeaderUnknown backgroundSync.snapshotBlockhash)
    return some ⟨backgroundSync.backgroundHeight,snapshotBaseHeight⟩

/-- What the stage learns from the node and asks it for. -/
inductive RpcEvent
  | reported (gap : Option BlockDataGap)
  | fetched (blockHashes : List BlockHash)

structure RpcSync where
  dbs : Dbs
  nextIdx : ℕ
  blockDataGap : Option BlockDataGap
  log : List RpcEvent
  events : List Event
  result : Option (Except RpcSyncError (Option InvalidBlock))

/-- What happens in one round: whether the sync is cancelled at its start or while it waits,
what the node answers, and whether the blocks can be committed. -/
structure RpcInput where
  cancelled : Bool
  waitCancelled : Bool
  chainstates : Option (List ChainstateInfo)
  blocks : List BlockHash → Option (List Block)
  committed : Bool

def blockFetchBatchSize : ℕ := 50

/-- How many blocks to fetch next, or that the next one has to be waited for. A batch below
the gap does not run into it. -/
def blockBatchSize (gap : Option BlockDataGap) (nextHeight : ℕ) : Option ℕ :=
  match gap with
  | some gap =>
    if gap.contains nextHeight then none
    else if nextHeight ≤ gap.backgroundHeight then
      some (min blockFetchBatchSize (gap.backgroundHeight-nextHeight+1))
    else some blockFetchBatchSize
  | none => some blockFetchBatchSize

namespace RpcSync

variable [Bitcoin]

def start (dbs : Dbs) (answer : Option (List ChainstateInfo)) : RpcSync :=
  match Bip300301Enforcer.blockDataGap dbs.blockHashes answer with
  | .error err => ⟨dbs,0,none,[],[],some (.error err)⟩
  | .ok gap => ⟨dbs,0,gap,[.reported gap],[],none⟩

def stop (s : RpcSync) (result : Except RpcSyncError (Option InvalidBlock)) : RpcSync :=
  { s with result := some result }

/-- Wait for the node, and ask it for the gap again. -/
def wait (s : RpcSync) (input : RpcInput) : RpcSync :=
  if input.waitCancelled then s.stop (.error .shutdown)
  else match Bip300301Enforcer.blockDataGap s.dbs.blockHashes input.chainstates with
    | .error err => s.stop (.error err)
    | .ok gap => { s with blockDataGap := gap, log := s.log++[.reported gap] }

def fetchBatch (h : BlockHandler) (missing : List BlockHash) (s : RpcSync) (input : RpcInput)
    (batchEnd : ℕ) : RpcSync :=
  let blockHashes := (missing.drop s.nextIdx).take (batchEnd-s.nextIdx)
  let s : RpcSync := { s with log := s.log++[.fetched blockHashes] }
  match input.blocks blockHashes with
  | none => s.stop (.error .fetchBlocks)
  | some blocks =>
    let processed := h.handleBlockBatchAndCommit s.dbs blocks
    match processed.result with
    | .error err => s.stop (.error (.block err))
    | .ok invalidBlock =>
      if input.committed then
        let s : RpcSync := { s with dbs := processed.dbs, events := s.events++processed.events }
        match invalidBlock with
        | some invalidBlock => s.stop (.ok (some invalidBlock))
        | none => { s with nextIdx := batchEnd }
      else s.stop (.error .transaction)

/-- One round of the loop. The missing blocks are listed with the oldest one first. -/
def round (h : BlockHandler) (missing : List BlockHash) (firstMissingHeight : ℕ) (s : RpcSync)
    (input : RpcInput) : RpcSync :=
  if s.result.isSome then s
  else if s.nextIdx < missing.length then
    if input.cancelled then s.stop (.error .shutdown)
    else match blockBatchSize s.blockDataGap (firstMissingHeight+s.nextIdx) with
      | none => s.wait input
      | some batchSize => s.fetchBatch h missing input (min (s.nextIdx+batchSize) missing.length)
  else s.stop (.ok none)

def run (h : BlockHandler) (dbs : Dbs) (missing : List BlockHash) (mainTipHeight : ℕ)
    (answer : Option (List ChainstateInfo)) (inputs : List RpcInput) : RpcSync :=
  inputs.foldl (round h missing (mainTipHeight+1-missing.length)) (start dbs answer)

end RpcSync

/-- The batches that the node is asked for. -/
def fetchedBatches (log : List RpcEvent) : List (List BlockHash) :=
  log.filterMap (fun
    | .reported _ => none
    | .fetched blockHashes => some blockHashes)

def lastGap : Option BlockDataGap → List RpcEvent → Option BlockDataGap
  | gap, [] => gap
  | _, .reported gap::log => lastGap gap log
  | gap, .fetched _::log => lastGap gap log

def NeverInGap (height : BlockHash → Option ℕ) : Option BlockDataGap → List RpcEvent → Prop
  | _, [] => True
  | _, .reported gap::log => NeverInGap height gap log
  | gap, .fetched blockHashes::log =>
    (∀ k ∈ blockHashes, ∀ n, height k = some n → ∀ g, gap = some g → g.contains n = false) ∧
      NeverInGap height gap log

theorem lastGap_append (gap : Option BlockDataGap) (log log' : List RpcEvent) :
    lastGap gap (log++log') = lastGap (lastGap gap log) log' := by
  induction log generalizing gap with
  | nil => rfl
  | cons e log ih =>
    cases e with
    | reported gap' => exact ih gap'
    | fetched blockHashes => exact ih gap

theorem neverInGap_append (height : BlockHash → Option ℕ) (gap : Option BlockDataGap)
    (log log' : List RpcEvent) : NeverInGap height gap (log++log') ↔
      NeverInGap height gap log ∧ NeverInGap height (lastGap gap log) log' := by
  induction log generalizing gap with
  | nil => simp [NeverInGap,lastGap]
  | cons e log ih =>
    cases e with
    | reported gap' => exact ih gap'
    | fetched blockHashes =>
      simp only [List.cons_append,NeverInGap,lastGap,ih,and_assoc]

/-- A batch has at least one block and at most fifty, and none of them is in the gap. -/
theorem blockBatchSize_some {gap : Option BlockDataGap} {nextHeight size : ℕ}
    (hs : blockBatchSize gap nextHeight = some size) :
    0 < size ∧ size ≤ blockFetchBatchSize ∧
      ∀ i < size, ∀ g, gap = some g → g.contains (nextHeight+i) = false := by
  have hpos : 0 < blockFetchBatchSize := by decide
  cases gap with
  | none =>
    obtain rfl := Option.some.inj hs
    exact ⟨hpos,le_rfl,by simp⟩
  | some gap =>
    simp only [blockBatchSize] at hs
    split at hs
    · cases hs
    · rename_i hnot
      simp only [BlockDataGap.contains,Bool.and_eq_true,decide_eq_true_eq,not_and,not_le] at hnot
      split at hs
      · rename_i hle
        obtain rfl := Option.some.inj hs
        refine ⟨by omega,min_le_left _ _,fun i hi g hg => ?_⟩
        obtain rfl := Option.some.inj hg
        simp only [BlockDataGap.contains,Bool.and_eq_false_iff,decide_eq_false_iff_not]
        left
        omega
      · rename_i hgt
        obtain rfl := Option.some.inj hs
        refine ⟨hpos,le_rfl,fun i hi g hg => ?_⟩
        obtain rfl := Option.some.inj hg
        simp only [BlockDataGap.contains,Bool.and_eq_false_iff,decide_eq_false_iff_not]
        right
        have := hnot (by omega)
        omega

section Rounds

variable {h : BlockHandler} {dbs : Dbs} {missing : List BlockHash}
  {height : BlockHash → Option ℕ} {first : ℕ} {s : RpcSync} {input : RpcInput}

/-- What holds after any number of rounds. -/
structure RpcSync.Fetching (height : BlockHash → Option ℕ) (missing : List BlockHash) (s : RpcSync) :
    Prop where
  idx : s.nextIdx ≤ missing.length
  running : s.result = none → (fetchedBatches s.log).flatten = missing.take s.nextIdx ∧
    lastGap none s.log = s.blockDataGap
  taken : ∃ m, (fetchedBatches s.log).flatten = missing.take m
  finished : s.result = some (.ok none) → (fetchedBatches s.log).flatten = missing
  sizes : ∀ batch ∈ fetchedBatches s.log, batch ≠ [] ∧ batch.length ≤ blockFetchBatchSize
  safe : NeverInGap height none s.log

theorem RpcSync.Fetching.start (answer : Option (List ChainstateInfo)) :
    (RpcSync.start dbs answer).Fetching height missing := by
  unfold RpcSync.start
  split
  · exact ⟨Nat.zero_le _,nofun,⟨0,rfl⟩,nofun,by simp [fetchedBatches],trivial⟩
  · exact ⟨Nat.zero_le _,fun _ => ⟨rfl,rfl⟩,⟨0,rfl⟩,nofun,by simp [fetchedBatches],trivial⟩

theorem RpcSync.Fetching.stop (hs : s.Fetching height missing)
    {result : Except RpcSyncError (Option InvalidBlock)}
    (hr : result = .ok none → (fetchedBatches s.log).flatten = missing) :
    (s.stop result).Fetching height missing :=
  ⟨hs.idx,nofun,hs.taken,fun he => hr (Option.some.inj he),hs.sizes,hs.safe⟩

variable [Bitcoin]

omit [Bitcoin] in
theorem RpcSync.Fetching.wait (hs : s.Fetching height missing) (hrun : s.result = none) :
    (s.wait input).Fetching height missing := by
  unfold RpcSync.wait
  split
  · exact hs.stop nofun
  · split
    · exact hs.stop nofun
    · rename_i gap hgap
      have hlog : fetchedBatches (s.log++[.reported gap]) = fetchedBatches s.log := by
        simp [fetchedBatches]
      refine ⟨hs.idx,fun _ => ⟨?_,?_⟩,?_,?_,?_,?_⟩
      · rw [hlog]
        exact (hs.running hrun).1
      · rw [lastGap_append]
        rfl
      · rw [hlog]
        exact hs.taken
      · rw [hlog]
        exact hs.finished
      · rw [hlog]
        exact hs.sizes
      · exact (neverInGap_append ..).mpr ⟨hs.safe,trivial⟩

/-- The next blocks are asked for. -/
theorem RpcSync.Fetching.fetchBatch {size : ℕ} (hs : s.Fetching height missing)
    (hrun : s.result = none) (hlt : s.nextIdx < missing.length)
    (hheight : ∀ i k, missing[i]? = some k → height k = some (first+i))
    (hsize : blockBatchSize s.blockDataGap (first+s.nextIdx) = some size) :
    (s.fetchBatch h missing input (min (s.nextIdx+size) missing.length)).Fetching height missing := by
  obtain ⟨hpos,hle,hgap⟩ := blockBatchSize_some hsize
  obtain ⟨hflat,hlast⟩ := hs.running hrun
  let batchEnd := min (s.nextIdx+size) missing.length
  let batch := (missing.drop s.nextIdx).take (batchEnd-s.nextIdx)
  have hend : s.nextIdx < batchEnd ∧ batchEnd ≤ s.nextIdx+size ∧ batchEnd ≤ missing.length := by
    simp only [batchEnd]
    omega
  have hlen : batch.length = batchEnd-s.nextIdx := by
    simp only [batch,List.length_take,List.length_drop]
    omega
  have htake : missing.take s.nextIdx++batch = missing.take batchEnd := by
    simp only [batch]
    rw [← List.take_add]
    congr 1
    omega
  have hbatches : fetchedBatches (s.log++[.fetched batch]) = fetchedBatches s.log++[batch] := by
    simp [fetchedBatches]
  have hflat' : (fetchedBatches (s.log++[.fetched batch])).flatten = missing.take batchEnd := by
    rw [hbatches,List.flatten_append,hflat,← htake]
    simp
  have hsizes : ∀ b ∈ fetchedBatches (s.log++[.fetched batch]),
      b ≠ [] ∧ b.length ≤ blockFetchBatchSize := by
    rw [hbatches]
    intro b hb
    rcases List.mem_append.mp hb with hb | hb
    · exact hs.sizes b hb
    · obtain rfl := List.mem_singleton.mp hb
      refine ⟨?_,by omega⟩
      rw [← List.length_pos_iff]
      omega
  have hsafe : NeverInGap height none (s.log++[.fetched batch]) := by
    refine (neverInGap_append ..).mpr ⟨hs.safe,?_,trivial⟩
    rw [hlast]
    intro k hk n hn
    obtain ⟨j,hj⟩ := List.mem_iff_getElem?.mp hk
    simp only [batch,List.getElem?_take,List.getElem?_drop] at hj
    split at hj
    · rename_i hjlt
      have hkheight := hheight _ k hj
      obtain rfl := Option.some.inj (hn.symm.trans hkheight)
      rw [← Nat.add_assoc]
      exact hgap j (by omega)
    · cases hj
  have hstop : ∀ (s' : RpcSync) (result : Except RpcSyncError (Option InvalidBlock)),
      result ≠ .ok none → s'.log = s.log++[.fetched batch] → s'.nextIdx = s.nextIdx →
      (s'.stop result).Fetching height missing := by
    intro s' result hr hlog hidx
    refine ⟨hidx ▸ hs.idx,nofun,?_,fun he => absurd (Option.some.inj he) hr,?_,?_⟩
    · exact ⟨batchEnd,hlog ▸ hflat'⟩
    · exact hlog ▸ hsizes
    · exact hlog ▸ hsafe
  unfold RpcSync.fetchBatch
  dsimp only
  split
  · exact hstop _ _ nofun rfl rfl
  · split
    · exact hstop _ _ nofun rfl rfl
    · split
      · split
        · exact hstop _ _ nofun rfl rfl
        · refine ⟨hend.2.2,fun _ => ⟨hflat',?_⟩,⟨batchEnd,hflat'⟩,fun he => ?_,hsizes,hsafe⟩
          · rw [lastGap_append]
            exact hlast
          · have hnone : s.result = some (.ok none) := he
            rw [hrun] at hnone
            cases hnone
      · exact hstop _ _ nofun rfl rfl

theorem RpcSync.Fetching.round (hs : s.Fetching height missing)
    (hheight : ∀ i k, missing[i]? = some k → height k = some (first+i)) :
    (s.round h missing first input).Fetching height missing := by
  unfold RpcSync.round
  split
  · exact hs
  · rename_i hrun
    have hrun : s.result = none := by simpa using hrun
    split
    · rename_i hlt
      split
      · exact hs.stop nofun
      · split
        · exact hs.wait hrun
        · rename_i size hsize
          exact hs.fetchBatch hrun hlt hheight hsize
    · rename_i hend
      refine hs.stop (fun _ => ?_)
      rw [(hs.running hrun).1,List.take_of_length_le (by omega)]

theorem RpcSync.Fetching.rounds (hs : s.Fetching height missing)
    (hheight : ∀ i k, missing[i]? = some k → height k = some (first+i)) (inputs : List RpcInput) :
    (inputs.foldl (RpcSync.round h missing first) s).Fetching height missing := by
  induction inputs generalizing s with
  | nil => exact hs
  | cons input inputs ih => exact ih (hs.round hheight)

/-- The heights of the missing blocks, counted down from that of the tip. -/
theorem missing_heights {bh : BlockHashDbs} {stop mainTip : BlockHash} {n : ℕ} (hh : bh.Headers)
    (hclimb : Climb bh.parent? stop missing mainTip) (hn : bh.height.get? mainTip = some n) :
    missing.length ≤ n+1 ∧ missing.Nodup ∧
      ∀ i k, missing[i]? = some k → bh.height.get? k = some (n+1-missing.length+i) := by
  have hpath := climb_iff_path.mp hclimb
  have hback : ∀ i k, missing.reverse[i]? = some k → bh.height.get? k = some (n-i) ∧ i ≤ n :=
    fun i k hk => rank_along hh.ranked hh.parent?_zeros hpath hn hk
  have hlen : missing.length ≤ n+1 := by
    by_contra hcon
    have hlt : n+1 < missing.reverse.length := by
      rw [List.length_reverse]
      omega
    have := (hback (n+1) _ (List.getElem?_eq_getElem hlt)).2
    omega
  refine ⟨hlen,List.nodup_reverse.mp (nodup_of_ranked hh.ranked hh.parent?_zeros hpath),?_⟩
  intro i k hk
  have hlt := (List.getElem?_eq_some_iff.mp hk).1
  have hrev : missing.reverse[missing.length-1-i]? = some k := by
    rw [List.getElem?_reverse (by omega),← hk]
    congr 1
    omega
  rw [(hback _ k hrev).1]
  congr 1
  omega

/-- For every way up to the tip over stored headers and whatever the node reports, the batches
that are asked for are the missing blocks in order, each block at most once and all of them when
the stage succeeds. A batch has between one and fifty blocks and none in the gap that was
reported last, and all differences of heights are exact. -/
theorem rpc_blocks_in_order (h : BlockHandler) (dbs : Dbs) (stop mainTip : BlockHash) (n : ℕ)
    (answer : Option (List ChainstateInfo)) (inputs : List RpcInput)
    (hh : dbs.blockHashes.Headers)
    (hclimb : Climb dbs.blockHashes.parent? stop missing mainTip)
    (hn : dbs.blockHashes.height.get? mainTip = some n) :
    let s := RpcSync.run h dbs missing n answer inputs
    (∃ m, (fetchedBatches s.log).flatten = missing.take m) ∧
    (fetchedBatches s.log).flatten.Nodup ∧
    (s.result = some (.ok none) → (fetchedBatches s.log).flatten = missing) ∧
    (∀ batch ∈ fetchedBatches s.log, batch ≠ [] ∧ batch.length ≤ 50) ∧
    NeverInGap dbs.blockHashes.height.get? none s.log ∧
    missing.length ≤ n+1 ∧
    ∀ i k, missing[i]? = some k → dbs.blockHashes.height.get? k = some (n+1-missing.length+i) := by
  obtain ⟨hlen,hnodup,hheights⟩ := missing_heights hh hclimb hn
  have hs : (RpcSync.run h dbs missing n answer inputs).Fetching dbs.blockHashes.height.get? missing :=
    (RpcSync.Fetching.start answer).rounds hheights inputs
  refine ⟨hs.taken,?_,hs.finished,hs.sizes,hs.safe,hlen,hheights⟩
  obtain ⟨m,hm⟩ := hs.taken
  rw [hm]
  exact hnodup.sublist (List.take_sublist m missing)

end Rounds

section Sample

open Sample FileSample

namespace GapSample

def missing : List BlockHash := ((blocks.drop 1).take 2).map Block.blockHash

def mainTip : BlockHash := missing.getLastD allZeros

def validating : List ChainstateInfo := [⟨some 1,none,none⟩,⟨some 2,some mainTip,some false⟩]

/-- The node has the requested blocks, and reports the given chainstates when it is asked
again. -/
def input (chainstates : List ChainstateInfo) : RpcInput where
  cancelled := false
  waitCancelled := false
  chainstates := some chainstates
  blocks hashes := some (blocks.filter (fun b => b.blockHash ∈ hashes))
  committed := true

def inputs : List RpcInput := [input validating,input validating,input [],input [],input []]

end GapSample

open GapSample

theorem rpc_blocks_in_order_sample :
    fetchedBatches (RpcSync.run handler FileSample.run.1 GapSample.missing 2 (some validating) inputs).log =
        GapSample.missing.map (fun k => [k]) ∧
      (fetchedBatches (RpcSync.run handler FileSample.run.1 GapSample.missing 2 (some validating)
        inputs).log).flatten = GapSample.missing ∧
      NeverInGap FileSample.run.1.blockHashes.height.get? none
        (RpcSync.run handler FileSample.run.1 GapSample.missing 2 (some validating) inputs).log := by
  have hclimb : Climb FileSample.run.1.blockHashes.parent?
      (blocks.headD ⟨⟨0,0,0,0,0,0⟩,[]⟩).blockHash GapSample.missing GapSample.mainTip := by
    decide +kernel
  obtain ⟨-,-,hdone,-,hsafe,-⟩ := rpc_blocks_in_order handler FileSample.run.1
    (blocks.headD ⟨⟨0,0,0,0,0,0⟩,[]⟩).blockHash GapSample.mainTip 2 (some validating) inputs
    FileSample.reach_run.synced.headers hclimb (by decide +kernel)
  exact ⟨by decide +kernel,hdone (by decide +kernel),hsafe⟩

end Sample

end Bip300301Enforcer
