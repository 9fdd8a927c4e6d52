import Bip300301Enforcer.Diff

/-! The tables that are indexed by block hashes, and the whole database. -/
namespace Bip300301Enforcer
open Lib

/-- A BMM request that the mempool has seen on top of some block. -/
structure SeenBmmRequest where
  parentBlockHash : BlockHash
  sidechainNumber : SidechainNumber
  txid : Txid
  commitment : BmmCommitment
deriving DecidableEq

structure BlockHashDbs where
  bmmCommitments : Database BlockHash BmmCommitments
  coinbaseTxid : Database BlockHash Txid
  cumulativeWork : Database BlockHash ℕ
  diff : Database BlockHash Diff.Block
  events : Database BlockHash (List BlockEvent)
  header : Database BlockHash Header
  height : Database BlockHash ℕ
  seenBmmRequestTxs : List SeenBmmRequest
deriving DecidableEq

namespace BlockHashDbs

variable [Bitcoin]

def empty : BlockHashDbs := ⟨.empty,.empty,.empty,.empty,.empty,.empty,.empty,[]⟩

def putHeader (dbs : BlockHashDbs) (header : Header) (height : ℕ) : BlockHashDbs :=
  let heights := dbs.height.insert header.blockHash height
  { dbs with
    header := dbs.header.insert header.blockHash header
    height := if header.prevBlockhash = allZeros then heights
      else heights.insert header.prevBlockhash (height-1) }

def putHeaders (dbs : BlockHashDbs) (headers : List (Header × ℕ)) : BlockHashDbs :=
  headers.foldl (fun dbs e => dbs.putHeader e.1 e.2) dbs

def chainWork (dbs : BlockHashDbs) (blockHash : BlockHash) (header : Header) : Res ℕ :=
  if header.prevBlockhash = allZeros then .ok header.work
  else do
    let parentWork ← Fallible.require (dbs.cumulativeWork.get? header.prevBlockhash)
      (.missingParent blockHash header.prevBlockhash)
    return parentWork+header.work

/-- Store what is known about a connected block. -/
def putBlockInfo (dbs : BlockHashDbs) (blockHash : BlockHash) (info : BlockInfo)
    (diff : Diff.Block) : Res BlockHashDbs := do
  let header ← Fallible.require (dbs.header.get? blockHash) (.missingHeader blockHash)
  let work ← dbs.chainWork blockHash header
  return { dbs with
    bmmCommitments := dbs.bmmCommitments.insert blockHash info.bmmCommitments
    coinbaseTxid := dbs.coinbaseTxid.insert blockHash info.coinbaseTxid
    cumulativeWork := dbs.cumulativeWork.insert blockHash work
    events := dbs.events.insert blockHash info.events
    diff := dbs.diff.insert blockHash diff }

def getHeaderInfo (dbs : BlockHashDbs) (blockHash : BlockHash) : Res HeaderInfo := do
  let header ← Fallible.require (dbs.header.get? blockHash) (.missingHeader blockHash)
  Fallible.ensure (header.blockHash = blockHash) (.panic .headerHash)
  let height ← Database.get dbs.height .height blockHash
  return ⟨header.blockHash,header.prevBlockhash,height,header.work,header.time⟩

end BlockHashDbs

/-- The database of the validator. -/
structure Dbs extends ConsensusDbs where
  blockHashes : BlockHashDbs
  currentChainTip : Option BlockHash
  seenUnconsolidatedCtipOutputs : Database OutPoint (SidechainNumber × ℕ)
deriving DecidableEq

def Dbs.empty : Dbs := ⟨.empty,.empty,none,.empty⟩

end Bip300301Enforcer
