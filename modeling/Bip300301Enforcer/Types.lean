import Bip300301Enforcer.Bitcoin
import Bip300301Enforcer.Lib.Bytes
import Bip300301Enforcer.Lib.OrderMap

/-! Network parameters, sidechains, treasuries and events. -/
namespace Bip300301Enforcer
open Std Lib

abbrev SidechainNumber := UInt8

abbrev M6id := Txid

abbrev BmmCommitment := BitVec 256

abbrev DescriptionHash := BitVec 256

/-- Voting and aging limits. -/
structure Thresholds where
  withdrawalBundleMaxAge : UInt16
  withdrawalBundleInclusionThreshold : UInt16
  unusedSidechainSlotProposalMaxAge : UInt16
  unusedSidechainSlotActivationThreshold : UInt16
deriving DecidableEq

inductive Fork
  | bitcoin
  | ecash
deriving DecidableEq

/-- The networks of the `bitcoin` crate. -/
inductive Network
  | mainnet
  | testnet
  | testnet4
  | signet
  | regtest
deriving DecidableEq

namespace Thresholds

def btcMainnet : Thresholds := ⟨26300,13150,2016,1815⟩

def ecxMainnet : Thresholds :=
  { btcMainnet with withdrawalBundleMaxAge := 12096, withdrawalBundleInclusionThreshold := 6048 }

def short : Thresholds := ⟨10,5,10,5⟩

def forNetwork : Fork → Network → Thresholds
  | .bitcoin, .mainnet => btcMainnet
  | .ecash, .mainnet => ecxMainnet
  | _, _ => short

def activatesUnusedSlot (t : Thresholds) (voteCount : UInt16) (proposalAge : ℕ) : Bool :=
  t.unusedSidechainSlotActivationThreshold < voteCount &&
    proposalAge ≤ t.unusedSidechainSlotProposalMaxAge.toNat

end Thresholds

/-- The opcode that marks a treasury output. -/
structure OpDrivechain where
  opcode : UInt8
deriving DecidableEq

namespace OpDrivechain

def nop5 : OpDrivechain := ⟨0xb4⟩

def nop8 : OpDrivechain := ⟨0xb7⟩

/-- `OP_DRIVECHAIN OP_PUSHBYTES_1 <S> OP_TRUE`. -/
def script (op : OpDrivechain) (s : SidechainNumber) : Script := [op.opcode,0x01,s,0x51]

end OpDrivechain

structure NetworkParams where
  fork : Fork
  thresholds : Thresholds
  /-- Blocks strictly below this height are plain Bitcoin history. -/
  bip300ActivationHeight : ℕ
  opDrivechain : OpDrivechain
deriving DecidableEq

namespace NetworkParams

/-- `u32::MAX`. -/
def neverActivates : ℕ := 4294967295

def new (fork : Fork) (network : Network) : NetworkParams :=
  let params : NetworkParams :=
    { fork
      thresholds := Thresholds.forNetwork fork network
      bip300ActivationHeight := if network = .mainnet then neverActivates else 0
      opDrivechain := .nop5 }
  if fork = .bitcoin then params
  else
    { params with
      opDrivechain := .nop8
      bip300ActivationHeight :=
        if network = .mainnet then 973728 else params.bip300ActivationHeight }

end NetworkParams

structure Ctip where
  outpoint : OutPoint
  value : ℕ
deriving DecidableEq

def hashBytes (x : BitVec 256) : List UInt8 :=
  (List.range 32).map (fun i => UInt8.ofNat (x.toNat/256^i))

theorem leNat_hashBytes (x : BitVec 256) : Bytes.leNat (hashBytes x) = x.toNat :=
  Bytes.leNat_leBytes_of_lt x.isLt

theorem hashBytes_inj {x y : BitVec 256} (h : hashBytes x = hashBytes y) : x = y := by
  apply BitVec.eq_of_toNat_eq
  rw [← leNat_hashBytes x,← leNat_hashBytes y,h]

structure SidechainProposalId where
  sidechainNumber : SidechainNumber
  descriptionHash : DescriptionHash
deriving DecidableEq

namespace SidechainProposalId

def bytes (id : SidechainProposalId) : List UInt8 := hashBytes id.descriptionHash

instance : Ord SidechainProposalId := ⟨compareLex (compareOn sidechainNumber) (compareOn bytes)⟩

instance : TransOrd SidechainProposalId :=
  inferInstanceAs (TransCmp (compareLex (compareOn sidechainNumber) (compareOn bytes)))

instance : LawfulEqOrd SidechainProposalId where
  compare_self := ReflCmp.compare_self
  eq_of_compare {a b} h := by
    obtain ⟨s,d⟩ := a
    obtain ⟨s',d'⟩ := b
    change compareLex (compareOn sidechainNumber) (compareOn bytes) _ _ = _ at h
    simp only [compareLex_eq_eq,compareOn] at h
    have hd : d = d' := hashBytes_inj (LawfulEqOrd.eq_of_compare h.2)
    rw [LawfulEqOrd.eq_of_compare h.1,hd]

end SidechainProposalId

structure SidechainProposal where
  sidechainNumber : SidechainNumber
  description : List UInt8
deriving DecidableEq

def SidechainProposal.computeId [Bitcoin] (p : SidechainProposal) : SidechainProposalId :=
  ⟨p.sidechainNumber,sha256d p.description⟩

structure SidechainProposalStatus where
  voteCount : UInt16
  proposalHeight : ℕ
  activationHeight : Option ℕ
deriving DecidableEq

structure Sidechain where
  proposal : SidechainProposal
  status : SidechainProposalStatus
deriving DecidableEq

namespace Sidechain

def withVotes (sc : Sidechain) (v : UInt16) : Sidechain :=
  { sc with status := { sc.status with voteCount := v } }

def withActivation (sc : Sidechain) (h : Option ℕ) : Sidechain :=
  { sc with status := { sc.status with activationHeight := h } }

end Sidechain

structure TreasuryUtxo where
  sidechainNumber : SidechainNumber
  outpoint : OutPoint
  totalValue : ℕ
  previousTotalValue : ℕ
deriving DecidableEq

structure PendingM6idInfo where
  voteCount : UInt16
  proposalHeight : ℕ
deriving DecidableEq

def PendingM6idInfo.new (proposalHeight : ℕ) : PendingM6idInfo := ⟨1,proposalHeight⟩

abbrev PendingM6ids := OrderMap M6id PendingM6idInfo

structure Deposit where
  sequenceNumber : ℕ
  outpoint : OutPoint
  address : List UInt8
  value : ℕ
deriving DecidableEq

structure HeaderInfo where
  blockHash : BlockHash
  prevBlockHash : BlockHash
  height : ℕ
  work : ℕ
  timestamp : UInt32
deriving DecidableEq

inductive WithdrawalBundleEventKind
  | submitted
  | failed
  | succeeded (sequenceNumber : ℕ) (transaction : Transaction)
deriving DecidableEq

structure WithdrawalBundleEvent where
  sidechainId : SidechainNumber
  m6id : M6id
  kind : WithdrawalBundleEventKind
deriving DecidableEq

abbrev BmmCommitments := OrderMap SidechainNumber BmmCommitment

inductive BlockEvent
  | deposits (deposits : FinMap SidechainNumber Deposit)
  | sidechainProposal (vout : ℕ) (proposal : SidechainProposal)
  | withdrawalBundle (event : WithdrawalBundleEvent)
deriving DecidableEq

structure BlockInfo where
  bmmCommitments : BmmCommitments
  coinbaseTxid : Txid
  events : List BlockEvent
deriving DecidableEq

inductive Event
  | connectBlock (headerInfo : HeaderInfo) (blockInfo : BlockInfo)
  | disconnectBlock (blockHash : BlockHash)
deriving DecidableEq

end Bip300301Enforcer
