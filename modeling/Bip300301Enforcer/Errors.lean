import Bip300301Enforcer.Messages

/-! The ways in which the validator fails. An error that a block causes is
reported as the reason for rejecting it, a fatal error says nothing about the
block, and a panic stops the process. -/
namespace Bip300301Enforcer
open Lib

inductive InvalidM6
  | insufficientVoteCount (m6id : M6id) (threshold voteCount : UInt16)
  | missingPendingWithdrawal (m6id : M6id) (sidechainNumber : SidechainNumber)
  | treasuryOutputCount (nTreasuryOutputs : ℕ)
  | treasuryOutputIndex (treasuryVout : ℕ)
  | unexpectedInput (unexpected : OutPoint)
  | missingConsolidatedInput (sidechainNumber : SidechainNumber)
deriving DecidableEq

/-- The tables whose entries are read with `get`, which fails on a missing key. -/
inductive Table
  | ctip
  | pendingM6ids
  | sidechain
  | slotSequenceToTreasuryUtxo
  | treasuryUtxoCount
  | proposalIdToSidechain
  | height
  | diff
  | cumulativeWork
deriving DecidableEq

/-- The assertions, index operations and overflow checks that can panic. -/
inductive Panic
  | voteCountOverflow
  | pendingWithdrawalIndex
  | secondConsolidatedInput
  | sidechainNumberMismatch
  | failedM6idsCapacity
  | shiftInsertIndex
  | m1ProposalIndex
  | headerHash
  | missingBlocksEmpty
  | rejectedBlockIndex
  | activationHeight
  | ctipSequenceNumber
deriving DecidableEq

inductive Error
  -- `HandleM3ProposeBundle`
  | bundleAlreadyPending (sidechainNumber : SidechainNumber) (m6id : M6id)
  | inactiveSidechain (sidechainNumber : SidechainNumber)
  -- `HandleM4Votes` and `HandleM4AckBundles`
  | invalidVotes (expected len : ℕ)
  | upvoteFailed (sidechainNumber : SidechainNumber) (index : UInt16)
  | twoBytesWithinByteRange
  -- `HandleM5M6`
  | ambiguous
  | invalidM6 (e : InvalidM6)
  | m6id (e : M6idError)
  | missingDepositAddress (sidechainNumber : SidechainNumber)
  | multipleOpDrivechainOutputs (sidechainNumber : SidechainNumber)
  | treasurySpentWithoutNewCtip (sidechainNumber : SidechainNumber)
  | zeroDiff
  -- `HandleM8`
  | bmmRequestExpired
  | notAcceptedByMiners
  -- `PartialConnectBlock` and `FinalizeConnectBlock`
  | blockParent (parent tip : BlockHash) (tipHeight : ℕ)
  | coinbaseMessages (e : CoinbaseMessagesError)
  | multipleBmmBlocks (sidechainNumber : SidechainNumber)
  | multipleBmmRequests (sidechainNumber : SidechainNumber)
  | noCoinbase
  | transaction (txid : Txid) (blockHash : BlockHash) (source : Error)
  | unconsolidatedCtip (outpoint : OutPoint) (sidechain : SidechainNumber)
  -- `UndoError` and `DisconnectBlock`
  | sidechainVoteCountUnderflow (sidechainNumber : SidechainNumber)
  | bundleVoteCountUnderflow (sidechainNumber : SidechainNumber) (m6id : M6id)
  | tipHash (blockHash tipHash : BlockHash)
  -- fatal errors
  | db (table : Table)
  | missingHeader (blockHash : BlockHash)
  | missingParent (blockHash prevBlockHash : BlockHash)
  | missingAncestor (blockHash : BlockHash) (depth height : ℕ)
  | noChainTip
  | panic (site : Panic)
deriving DecidableEq

abbrev Res := Except Error

inductive Fatality
  | jfyi
  | fatal
  | panic
deriving DecidableEq

/-- How far an error reaches. -/
def Error.fatality : Error → Fatality
  | .transaction _ _ source => source.fatality
  | .db _ => .fatal
  | .missingHeader _ => .fatal
  | .missingParent _ _ => .fatal
  | .missingAncestor _ _ _ => .fatal
  | .noChainTip => .fatal
  | .panic _ => .panic
  | _ => .jfyi

/-- The ways in which reading the block files fails. -/
inductive BlockFilesError
  | openDirectory
  | fetchBlockIndex
  | missingFileNumber
  | missingDataPos
  | setOffset
  | parseBlock
  | parseTxData
deriving DecidableEq

/-- The ways in which a sync stops early. A transaction of the database may fail to open
or to commit. -/
inductive SyncError
  | shutdown
  | block (err : Error)
  | blockFiles (err : BlockFilesError)
  | transaction
deriving DecidableEq

def SyncError.panics : SyncError → Bool
  | .block err => err.fatality = .panic
  | _ => false

end Bip300301Enforcer
