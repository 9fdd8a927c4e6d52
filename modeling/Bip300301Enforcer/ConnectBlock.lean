import Bip300301Enforcer.BlockHandler
import Bip300301Enforcer.BlockHashes

/-! Connecting and disconnecting blocks. -/
namespace Bip300301Enforcer
open Lib

structure PartiallyConnectedBlockInfo where
  headerInfo : HeaderInfo
  blockInfo : BlockInfo
  diff : Diff.Block
  unconsolidatedCtips : UnconsolidatedCtips

/-- What a block does to the consensus tables. -/
structure ProcessedBlock where
  dbs : ConsensusDbs
  blockInfo : BlockInfo
  diff : Diff.Block
  unconsolidatedCtips : UnconsolidatedCtips

/-- The messages of a coinbase, and the first output of each proposal in it. -/
structure CoinbaseScan where
  messages : CoinbaseMessages
  m1SidechainProposals : FinMap SidechainProposalId ℕ

/-- State of the loop over the coinbase messages. -/
structure CoinbaseState where
  dbs : ConsensusDbs
  acceptedBmmRequests : BmmCommitments
  events : List BlockEvent
  diffs : List Diff.CoinbaseMsg

/-- State of the loop over the other transactions. -/
structure TxState where
  dbs : ActiveSidechainDbs
  unconsolidatedCtips : UnconsolidatedCtips
  bmmRequestSlots : List SidechainNumber
  events : List BlockEvent
  diffs : List Diff.Tx

def emptyBlockInfoAndDiff (coinbaseTxid : Txid) : BlockInfo × Diff.Block :=
  (⟨.empty,coinbaseTxid,[]⟩,⟨⟨[],⟨.empty⟩,⟨.empty⟩⟩,[]⟩)

def TransactionEvent.toBlockEvent : TransactionEvent → BlockEvent
  | .deposits ds => .deposits ds
  | .withdrawalBundle event => .withdrawalBundle event

def Diff.FailedM6ids.events (d : Diff.FailedM6ids) : List BlockEvent :=
  d.failed.toList.flatMap (fun e =>
    e.2.map (fun f => .withdrawalBundle ⟨e.1,f.2.1,.failed⟩))

/-- Apply the diff of a message and record it. -/
def CoinbaseState.record (acc : CoinbaseState) (height : ℕ) :
    Option Diff.CoinbaseMsg → Res CoinbaseState
  | none => .ok acc
  | some d => do
    let dbs ← d.apply acc.dbs height
    return { acc with dbs, diffs := acc.diffs++[d] }

def TxState.record (acc : TxState) : Option (TransactionEvent × Diff.Tx) → Res TxState
  | none => .ok acc
  | some (event,d) => do
    let dbs ← d.apply acc.dbs
    return { acc with dbs, events := acc.events++[event.toBlockEvent], diffs := acc.diffs++[d] }

namespace BlockHandler

variable [Bitcoin] (h : BlockHandler)

def ensureTipIsParent (dbs : Dbs) (parent : BlockHash) : Res Unit :=
  match dbs.currentChainTip with
  | some tip =>
    if parent = tip then .ok ()
    else .error (.blockParent parent tip ((dbs.blockHashes.height.get? tip).getD 0))
  | none =>
    if parent = allZeros then .ok ()
    else .error (.blockParent parent allZeros ((dbs.blockHashes.height.get? allZeros).getD 0))

/-- Read one coinbase output. An output that is no message is skipped. -/
def scanOutput (acc : CoinbaseScan) (e : TxOut × ℕ) : Res CoinbaseScan :=
  match CoinbaseMessage.parse e.1.scriptPubkey with
  | none => .ok acc
  | some msg => do
    let proposals := match msg with
      | .m1ProposeSidechain s description =>
        let id : SidechainProposalId := ⟨s,sha256d description⟩
        if acc.m1SidechainProposals.contains id then acc.m1SidechainProposals
        else acc.m1SidechainProposals.insert id e.2
      | _ => acc.m1SidechainProposals
    let messages ← (acc.messages.push msg e.2).mapError .coinbaseMessages
    return ⟨messages,proposals⟩

def scanCoinbase (coinbase : Transaction) : Res CoinbaseScan :=
  coinbase.output.zipIdx.foldlM scanOutput ⟨.default,.empty⟩

def messageEvent (proposals : FinMap SidechainProposalId ℕ) :
    Option CoinbaseMessageEvent → Res (List BlockEvent)
  | none => .ok []
  | some (.newSidechainProposal sidechain) => do
    let vout ← Fallible.require (proposals.get? sidechain.proposal.computeId)
      (.panic .m1ProposalIndex)
    return [.sidechainProposal vout sidechain.proposal]
  | some (.withdrawalBundle event) => .ok [.withdrawalBundle event]

def connectMessage (height : ℕ) (parent : BlockHash) (prevDiff : Option Diff.Block)
    (proposals : FinMap SidechainProposalId ℕ) (acc : CoinbaseState) (msg : CoinbaseMessage × ℕ) :
    Res CoinbaseState := do
  let (event,diff,acceptedBmmRequests) ←
    h.handleCoinbaseMessage acc.dbs height parent prevDiff acc.acceptedBmmRequests msg.1
  let events ← messageEvent proposals event
  { acc with acceptedBmmRequests, events := acc.events++events }.record height diff

/-- A coinbase without `M4` counts as one that abstains in every slot. -/
def connectMissingM4 (height : ℕ) (parent : BlockHash) (prevDiff : Option Diff.Block)
    (m4Exists : Bool) (acc : CoinbaseState) : Res CoinbaseState :=
  if m4Exists then .ok acc
  else do
    let upvotes := List.replicate acc.dbs.activeSidechains.sidechain.toList.length
      M4AckBundles.abstainOneByte
    let d ← handleM4AckBundles acc.dbs parent prevDiff (.oneByte upvotes)
    acc.record height (if d.actions.isEmpty then none else some (.ackBundles d))

/-- The coinbase phase of a block: its messages, then the proposals and bundles
that fail at its height. -/
def connectCoinbase (dbs : ConsensusDbs) (height : ℕ) (parent : BlockHash)
    (prevDiff : Option Diff.Block) (coinbase : Transaction) :
    Res (ConsensusDbs × BmmCommitments × List BlockEvent × Diff.Coinbase) := do
  let scan ← scanCoinbase coinbase
  let acc ← scan.messages.messages.foldlM
    (h.connectMessage height parent prevDiff scan.m1SidechainProposals) ⟨dbs,.empty,[],[]⟩
  let acc ← connectMissingM4 height parent prevDiff scan.messages.m4Exists acc
  let failedProposals := h.handleFailedSidechainProposals acc.dbs height
  let dbs := failedProposals.apply acc.dbs
  let failedM6ids ← h.handleFailedM6ids dbs.activeSidechains height
  let activeSidechains ← failedM6ids.apply dbs.activeSidechains
  return ({ dbs with activeSidechains },acc.acceptedBmmRequests,acc.events++failedM6ids.events,
    ⟨acc.diffs,failedProposals,failedM6ids⟩)

/-- Only one request can be accepted for each slot. -/
def claimBmmSlot (slots : List SidechainNumber) (tx : Transaction) : Res (List SidechainNumber) :=
  match parseM8Tx tx with
  | none => .ok slots
  | some request =>
    if request.sidechainNumber ∈ slots then .error (.multipleBmmRequests request.sidechainNumber)
    else .ok (request.sidechainNumber::slots)

def connectTx (accepted : BmmCommitments) (parent blockHash : BlockHash) (acc : TxState)
    (tx : Transaction) : Res TxState := do
  let (handled,unconsolidatedCtips) ←
    (h.handleTransaction acc.dbs (some accepted) acc.unconsolidatedCtips parent tx).mapError
      (.transaction tx.computeTxid blockHash)
  let bmmRequestSlots ← claimBmmSlot acc.bmmRequestSlots tx
  { acc with unconsolidatedCtips, bmmRequestSlots }.record handled

/-- Everything that a block does to the consensus tables. Below the activation
height that is nothing. -/
def processBlock (dbs : ConsensusDbs) (height : ℕ) (parent blockHash : BlockHash)
    (prevDiff : Option Diff.Block) (coinbase : Transaction) (txs : List Transaction) :
    Res ProcessedBlock :=
  if height < h.params.bip300ActivationHeight then
    let (blockInfo,diff) := emptyBlockInfoAndDiff coinbase.computeTxid
    .ok ⟨dbs,blockInfo,diff,.default⟩
  else do
    let (dbs,accepted,events,coinbaseDiff) ← h.connectCoinbase dbs height parent prevDiff coinbase
    let acc ← txs.foldlM (h.connectTx accepted parent blockHash)
      ⟨dbs.activeSidechains,.default,[],events,[]⟩
    return ⟨{ dbs with activeSidechains := acc.dbs },⟨accepted,coinbase.computeTxid,acc.events⟩,
      ⟨coinbaseDiff,acc.diffs⟩,acc.unconsolidatedCtips⟩

/-- Connect a block without recording it. Its header should be stored before. -/
def partialConnectBlock (dbs : Dbs) (block : Block) : Res (PartiallyConnectedBlockInfo × Dbs) := do
  let parent := block.header.prevBlockhash
  ensureTipIsParent dbs parent
  let blockHash := block.blockHash
  let height ← Database.get dbs.blockHashes.height .height blockHash
  match block.txdata with
  | [] => throw .noCoinbase
  | coinbase::txs =>
    let res ← h.processBlock dbs.toConsensusDbs height parent blockHash
      (dbs.blockHashes.diff.get? parent) coinbase txs
    return (⟨⟨blockHash,parent,height,block.header.work,block.header.time⟩,res.blockInfo,res.diff,
      res.unconsolidatedCtips⟩,{ dbs with toConsensusDbs := res.dbs })

def tipWork (currentChainTip : Option BlockHash) (cumulativeWork : Database BlockHash ℕ) :
    Res (Option ℕ) :=
  match currentChainTip with
  | none => .ok none
  | some tip => (Database.get cumulativeWork .cumulativeWork tip).map some

/-- Persist a block's info and diff, and advance the chain tip if the block has
the most cumulative work. -/
def recordBlock (dbs : Dbs) (headerInfo : HeaderInfo) (blockInfo : BlockInfo) (diff : Diff.Block) :
    Res (Event × Dbs) := do
  let blockHashes ← dbs.blockHashes.putBlockInfo headerInfo.blockHash blockInfo diff
  let tipWork ← tipWork dbs.currentChainTip blockHashes.cumulativeWork
  let work ← Database.get blockHashes.cumulativeWork .cumulativeWork headerInfo.blockHash
  let advances := match tipWork with
    | none => true
    | some tipWork => tipWork < work
  let currentChainTip := if advances then some headerInfo.blockHash else dbs.currentChainTip
  return (.connectBlock headerInfo blockInfo,{ dbs with blockHashes, currentChainTip })

/-- No treasury output may be left unconsolidated at the end of a block. -/
def finalizeConnectBlock (dbs : Dbs) (info : PartiallyConnectedBlockInfo) : Res (Event × Dbs) :=
  match info.unconsolidatedCtips.byOutpoint.toList with
  | (outpoint,sidechain,_)::_ => .error (.unconsolidatedCtip outpoint sidechain)
  | [] => recordBlock dbs info.headerInfo info.blockInfo info.diff

def connectBlock (dbs : Dbs) (block : Block) : Res (Event × Dbs) := do
  let (info,dbs) ← h.partialConnectBlock dbs block
  finalizeConnectBlock dbs info

def checkTip (dbs : Dbs) (blockHash : BlockHash) : Res Unit :=
  match dbs.currentChainTip with
  | some tip => Fallible.ensure (tip = blockHash) (.tipHash blockHash tip)
  | none => .ok ()

/-- Disconnect a block. A block without a stored diff was rejected, and there is
nothing to do. -/
def disconnectBlock (dbs : Dbs) (blockHash : BlockHash) : Res (List Event × Dbs) :=
  match dbs.blockHashes.diff.get? blockHash with
  | none => .ok ([],dbs)
  | some diff => do
    checkTip dbs blockHash
    let headerInfo ← dbs.blockHashes.getHeaderInfo blockHash
    let consensus ← diff.undo dbs.toConsensusDbs
    let currentChainTip :=
      if headerInfo.prevBlockHash ≠ allZeros then some headerInfo.prevBlockHash else none
    return ([.disconnectBlock blockHash],{ dbs with toConsensusDbs := consensus, currentChainTip })

end BlockHandler

end Bip300301Enforcer
