import Bip300301Enforcer.Reach

/-! The validator as the mempool sees it: transactions are accepted on top of the tip,
and blocks are connected and disconnected. -/
namespace Bip300301Enforcer
open Lib BlockHandler

namespace BlockHashDbs

def getSeenBmmRequests (dbs : BlockHashDbs) (parentBlockHash : BlockHash) (slot : SidechainNumber) :
    List (BmmCommitment × Txid) :=
  (dbs.seenBmmRequestTxs.filter
    (fun r => r.parentBlockHash = parentBlockHash && r.sidechainNumber = slot)).map
    (fun r => (r.commitment,r.txid))

def getSeenBmmRequestsForParentBlock (dbs : BlockHashDbs) (parentBlockHash : BlockHash) :
    List (SidechainNumber × BmmCommitment × Txid) :=
  (dbs.seenBmmRequestTxs.filter (fun r => r.parentBlockHash = parentBlockHash)).map
    (fun r => (r.sidechainNumber,r.commitment,r.txid))

def putSeenBmmRequest (dbs : BlockHashDbs) (request : SeenBmmRequest) : BlockHashDbs :=
  { dbs with seenBmmRequestTxs := dbs.seenBmmRequestTxs.insert request }

def seenTxids (dbs : BlockHashDbs) (parentBlockHash : BlockHash) : List Txid :=
  (dbs.getSeenBmmRequestsForParentBlock parentBlockHash).map (fun r => r.2.2)

end BlockHashDbs

/-- Upper bound on the weight of the transaction that consolidates the treasury outputs of
a deposit. -/
def consolidationTxWeight (nTreasuries : ℕ) : ℕ :=
  let versionAndLocktime := 4+4
  let counts := 2*(1+4)
  let input := 36+1+4
  let treasuryOutput := 8+1+4
  4*(versionAndLocktime+counts+nTreasuries*(2*input+treasuryOutput))

def bmmAcceptOutputWeight : ℕ := (8+1+39)*4

/-- What a transaction does on top of the tip. -/
inductive ValidatedTx
  | m5 (newUnconsolidatedCtips : UnconsolidatedCtips)
  | invalid
  | valid
  | payout (sidechainNumber : SidechainNumber) (m6id : M6id)

inductive TxAcceptAction
  | accept (conflictsWith : List Txid) (weightTweak : ℕ)
  | reject

inductive ConnectBlockAction
  | accept (removeMempoolTxs : List Txid)
  | reject

namespace BlockHandler

variable [Bitcoin] (h : BlockHandler)

/-- The inputs of a transaction that spend treasury outputs of earlier unconfirmed ones. -/
def seenUnconsolidated (dbs : Dbs) (tx : Transaction) : UnconsolidatedCtips :=
  tx.input.foldl (fun u input =>
    match dbs.seenUnconsolidatedCtipOutputs.get? input.previousOutput with
    | some (s,value) => u.insert s ⟨input.previousOutput,value⟩
    | none => u) .default

/-- Check whether a transaction may enter the mempool on top of the current tip. A
withdrawal may, while its bundle is pending, whatever its votes. -/
def validateTx (dbs : Dbs) (tx : Transaction) : Res ValidatedTx := do
  let tipHash ← Fallible.require dbs.currentChainTip .noChainTip
  let _ ← Database.get dbs.blockHashes.height .height tipHash
  let handler := { h with requirePayableBundles := false }
  match handler.handleTransaction dbs.activeSidechains none (seenUnconsolidated dbs tx) tipHash tx with
  | .ok (none,_) => return .valid
  | .ok (some (event,diff),unconsolidatedCtips) =>
    let _ ← diff.apply dbs.activeSidechains
    return match event with
      | .withdrawalBundle event => .payout event.sidechainId event.m6id
      | .deposits _ => .m5 unconsolidatedCtips
  | .error err =>
    match err.fatality with
    | .jfyi => return .invalid
    | .fatal | .panic => throw err

def noteBmmRequest (dbs : BlockHashDbs) (txid : Txid) (request : M8BmmRequest) :
    List Txid × BlockHashDbs :=
  ((dbs.getSeenBmmRequests request.prevMainchainBlockHash request.sidechainNumber).map Prod.snd |>.filter
      (fun t => t ≠ txid),
    dbs.putSeenBmmRequest ⟨request.prevMainchainBlockHash,request.sidechainNumber,txid,
      request.sidechainBlockHash⟩)

def weightTweak (tx : Transaction) : ℕ :=
  let nTreasuryOutputs :=
    (tx.output.filter (fun out => (h.params.opDrivechain.parse out.scriptPubkey).isSome)).length
  (if (parseM8Tx tx).isSome then bmmAcceptOutputWeight else 0)+
    (if nTreasuryOutputs = 0 then 0 else consolidationTxWeight nTreasuryOutputs)

/-- The treasury outputs that a transaction leaves unconsolidated, and the bundle it pays. -/
def acceptedCtips : ValidatedTx → Option (UnconsolidatedCtips × Option (SidechainNumber × M6id))
  | .m5 newUnconsolidatedCtips => some (newUnconsolidatedCtips,none)
  | .invalid => none
  | .valid => some (.default,none)
  | .payout s m6id => some (.default,some (s,m6id))

/-- Accept a transaction into the mempool, or reject it. An error changes nothing. -/
def acceptTxWithPayout (dbs : Dbs) (tx : Transaction) :
    Res (TxAcceptAction × Option (SidechainNumber × M6id) × Dbs) := do
  let validated ← h.validateTx dbs tx
  match acceptedCtips validated with
  | none => return (.reject,none,dbs)
  | some (newCtips,payout) =>
    let txid := tx.computeTxid
    let (conflictsWith,blockHashes) := match parseM8Tx tx with
      | some request => noteBmmRequest dbs.blockHashes txid request
      | none => ([],dbs.blockHashes)
    return (.accept conflictsWith (h.weightTweak tx),payout,{ dbs with
      blockHashes
      seenUnconsolidatedCtipOutputs :=
        dbs.seenUnconsolidatedCtipOutputs.insertAll newCtips.byOutpoint.toList })

def newHeight (dbs : BlockHashDbs) (parent : BlockHash) : Option ℕ :=
  if parent = allZeros then some 0 else (dbs.height.get? parent).map (·+1)

/-- Store the header of a block unless it is there. The height of its parent may be
missing. -/
def storeHeader (dbs : Dbs) (block : Block) : Option Dbs :=
  if dbs.blockHashes.header.contains block.blockHash then some dbs
  else
    (newHeight dbs.blockHashes block.header.prevBlockhash).map
      (fun height => { dbs with blockHashes := dbs.blockHashes.putHeader block.header height })

/-- Connect a block and commit. A rejected block keeps its header. -/
def connectBlockCommit (dbs : Dbs) (block : Block) : Res (ConnectBlockAction × Dbs) :=
  match storeHeader dbs block with
  | none => .ok (.reject,dbs)
  | some dbs =>
    match h.connectBlock dbs block with
    | .ok (_,dbs') =>
      .ok (.accept (dbs'.blockHashes.seenTxids block.header.prevBlockhash),dbs')
    | .error err =>
      match err.fatality with
      | .jfyi => .ok (.reject,dbs)
      | .fatal | .panic => .error err

/-- Disconnect a block and commit. The requests on top of it leave the mempool. -/
def disconnectBlockCommit (dbs : Dbs) (blockHash : BlockHash) : Res (List Txid × Dbs) := do
  let (_,dbs) ← disconnectBlock dbs blockHash
  return (dbs.blockHashes.seenTxids blockHash,dbs)

end BlockHandler

/-- A transaction in the mempool, with the conflicts that it was accepted with. -/
structure MempoolTx where
  tx : Transaction
  conflictsWith : List Txid

inductive EnforcerCall
  | acceptTx (tx : Transaction)
  | connectBlock (block : Block)
  | disconnectBlock (blockHash : BlockHash)

/-- The validator and the mempool of the node, whose latest transaction is the first. -/
structure EnforcedNode where
  dbs : Dbs
  mempool : List MempoolTx

namespace EnforcedNode

variable [Bitcoin] (h : BlockHandler)

def drop (mempool : List MempoolTx) (txids : List Txid) : List MempoolTx :=
  mempool.filter (fun e => e.tx.computeTxid ∉ txids)

/-- Make one call. A call that fails changes nothing. Accepted transactions enter the
mempool, and those that are removed or mined leave it. -/
def call (s : EnforcedNode) : EnforcerCall → EnforcedNode
  | .acceptTx tx =>
    match h.acceptTxWithPayout s.dbs tx with
    | .ok (.accept conflictsWith _,_,dbs) => ⟨dbs,⟨tx,conflictsWith⟩::s.mempool⟩
    | .ok (.reject,_,_) => s
    | .error _ => s
  | .connectBlock block =>
    match h.connectBlockCommit s.dbs block with
    | .ok (.accept removed,dbs) =>
      ⟨dbs,drop s.mempool (removed++block.txdata.map Transaction.computeTxid)⟩
    | .ok (.reject,dbs) => { s with dbs }
    | .error _ => s
  | .disconnectBlock blockHash =>
    match disconnectBlockCommit s.dbs blockHash with
    | .ok (removed,dbs) => ⟨dbs,drop s.mempool removed⟩
    | .error _ => s

end EnforcedNode

end Bip300301Enforcer
