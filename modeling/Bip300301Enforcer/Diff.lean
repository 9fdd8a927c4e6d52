import Bip300301Enforcer.Dbs

/-! Block diffs, which are applied when a block is connected and undone when it
is disconnected. -/
namespace Bip300301Enforcer
open Lib

/-- `vote_count += 1`, which panics on overflow. -/
def incrementVotes (v : UInt16) : Res UInt16 :=
  if v = 0xFFFF then .error (.panic .voteCountOverflow) else .ok (v+1)

namespace PendingM6idInfo

def increment (info : PendingM6idInfo) : Res PendingM6idInfo :=
  (incrementVotes info.voteCount).map (fun v => { info with voteCount := v })

end PendingM6idInfo

namespace Diff

structure NewSidechainProposal where
  id : SidechainProposalId
  sidechain : Sidechain
deriving DecidableEq

namespace NewSidechainProposal

def apply (d : NewSidechainProposal) (dbs : ConsensusDbs) : ConsensusDbs :=
  { dbs with proposalIdToSidechain := dbs.proposalIdToSidechain.insert d.id d.sidechain }

def undo (d : NewSidechainProposal) (dbs : ConsensusDbs) : ConsensusDbs :=
  { dbs with proposalIdToSidechain := dbs.proposalIdToSidechain.erase d.id }

end NewSidechainProposal

/-- Effect of a sidechain proposal ack. -/
inductive Effect
  | noActivation
  | replaceActive (prev : Sidechain)
  | slotActivation
deriving DecidableEq

structure AckSidechainProposal where
  id : SidechainProposalId
  effect : Effect
deriving DecidableEq

namespace AckSidechainProposal

/-- Move a proposal to its slot. -/
def activate (d : AckSidechainProposal) (dbs : ConsensusDbs) (sidechain : Sidechain) (height : ℕ) :
    ConsensusDbs :=
  { activeSidechains :=
      dbs.activeSidechains.putSidechain d.id.sidechainNumber (sidechain.withActivation (some height))
    proposalIdToSidechain := dbs.proposalIdToSidechain.erase d.id }

def apply (d : AckSidechainProposal) (dbs : ConsensusDbs) (height : ℕ) : Res ConsensusDbs := do
  let sidechain ← Database.get dbs.proposalIdToSidechain .proposalIdToSidechain d.id
  let votes ← incrementVotes sidechain.status.voteCount
  let sidechain := sidechain.withVotes votes
  match d.effect with
  | .noActivation =>
    return { dbs with proposalIdToSidechain := dbs.proposalIdToSidechain.insert d.id sidechain }
  | .slotActivation => return d.activate dbs sidechain height
  | .replaceActive _ => return d.activate dbs sidechain height

def deactivate (d : AckSidechainProposal) (dbs : ConsensusDbs) : Res (Sidechain × ConsensusDbs) :=
  match d.effect with
  | .noActivation => do
    let sidechain ← Database.get dbs.proposalIdToSidechain .proposalIdToSidechain d.id
    return (sidechain,dbs)
  | .replaceActive prev => do
    let sidechain ← Database.get dbs.activeSidechains.sidechain .sidechain d.id.sidechainNumber
    return (sidechain.withActivation none,{ dbs with
      activeSidechains := dbs.activeSidechains.putSidechain d.id.sidechainNumber prev })
  | .slotActivation => do
    let sidechain ← Database.get dbs.activeSidechains.sidechain .sidechain d.id.sidechainNumber
    return (sidechain.withActivation none,{ dbs with
      activeSidechains := dbs.activeSidechains.deleteSidechain d.id.sidechainNumber })

def undo (d : AckSidechainProposal) (dbs : ConsensusDbs) : Res ConsensusDbs := do
  let (sidechain,dbs) ← d.deactivate dbs
  Fallible.ensure (sidechain.status.voteCount ≠ 0)
    (.sidechainVoteCountUnderflow d.id.sidechainNumber)
  let sidechain := sidechain.withVotes (sidechain.status.voteCount-1)
  return { dbs with proposalIdToSidechain := dbs.proposalIdToSidechain.insert d.id sidechain }

end AckSidechainProposal

structure ProposeBundle where
  sidechainNumber : SidechainNumber
  m6id : M6id
deriving DecidableEq

namespace ProposeBundle

def apply (d : ProposeBundle) (dbs : ActiveSidechainDbs) (height : ℕ) : Res ActiveSidechainDbs :=
  dbs.putPendingM6id d.sidechainNumber d.m6id height

def undo (d : ProposeBundle) (dbs : ActiveSidechainDbs) : Res ActiveSidechainDbs :=
  dbs.deletePendingWithdrawal d.sidechainNumber d.m6id

end ProposeBundle

inductive AckBundleAction
  /-- With the bundles that had votes when the diff was made. -/
  | alarm (positiveVotesProposals : List M6id)
  /-- With the other bundles that had votes when the diff was made. -/
  | upvote (m6id : M6id) (downvotedOthers : List M6id)
deriving DecidableEq

namespace AckBundleAction

def upvotePending (m6id : M6id) (downvotedOthers : List M6id) (pending : PendingM6ids) :
    Res PendingM6ids := do
  let info ← Fallible.require (pending.get? m6id) (.panic .pendingWithdrawalIndex)
  let info ← info.increment
  return downvotedOthers.foldl (fun p other => p.modify other ActiveSidechainDbs.downvote)
    (pending.insert m6id info)

def restoreVote (pending : PendingM6ids) (m6id : M6id) : Res PendingM6ids :=
  match pending.get? m6id with
  | some info => info.increment.map (pending.insert m6id)
  | none => .ok pending

def undoUpvotePending (s : SidechainNumber) (m6id : M6id) (downvotedOthers : List M6id)
    (pending : PendingM6ids) : Res PendingM6ids := do
  let info ← Fallible.require (pending.get? m6id) (.panic .pendingWithdrawalIndex)
  Fallible.ensure (info.voteCount ≠ 0) (.bundleVoteCountUnderflow s m6id)
  downvotedOthers.foldlM restoreVote
    (pending.insert m6id { info with voteCount := info.voteCount-1 })

def undoAlarmPending (positiveVotesProposals : List M6id) (pending : PendingM6ids) :
    Res PendingM6ids :=
  pending.traverseVals
    (fun m6id info => if m6id ∈ positiveVotesProposals then info.increment else .ok info)

def apply (a : AckBundleAction) (dbs : ActiveSidechainDbs) (s : SidechainNumber) :
    Res ActiveSidechainDbs :=
  match a with
  | .alarm _ => dbs.alarmPendingM6ids s
  | .upvote m6id others => dbs.withPendingWithdrawals s (upvotePending m6id others)

def undo (a : AckBundleAction) (dbs : ActiveSidechainDbs) (s : SidechainNumber) :
    Res ActiveSidechainDbs :=
  match a with
  | .alarm positive => dbs.withPendingWithdrawals s (undoAlarmPending positive)
  | .upvote m6id others => dbs.withPendingWithdrawals s (undoUpvotePending s m6id others)

end AckBundleAction

/-- The action of each slot that has one. -/
structure AckBundles where
  actions : FinMap SidechainNumber AckBundleAction
deriving DecidableEq

namespace AckBundles

def default : AckBundles := ⟨.empty⟩

def apply (d : AckBundles) (dbs : ActiveSidechainDbs) : Res ActiveSidechainDbs :=
  d.actions.toList.foldlM (fun dbs e => e.2.apply dbs e.1) dbs

def undo (d : AckBundles) (dbs : ActiveSidechainDbs) : Res ActiveSidechainDbs :=
  d.actions.toList.foldlM (fun dbs e => e.2.undo dbs e.1) dbs

end AckBundles

inductive CoinbaseMsg
  | ackBundles (d : AckBundles)
  | ackSidechainProposal (d : AckSidechainProposal)
  | newSidechainProposal (d : NewSidechainProposal)
  | proposeBundle (d : ProposeBundle)
deriving DecidableEq

namespace CoinbaseMsg

def apply (d : CoinbaseMsg) (dbs : ConsensusDbs) (height : ℕ) : Res ConsensusDbs :=
  match d with
  | .ackBundles d => do return { dbs with activeSidechains := ← d.apply dbs.activeSidechains }
  | .ackSidechainProposal d => d.apply dbs height
  | .newSidechainProposal d => .ok (d.apply dbs)
  | .proposeBundle d => do
    return { dbs with activeSidechains := ← d.apply dbs.activeSidechains height }

def undo (d : CoinbaseMsg) (dbs : ConsensusDbs) : Res ConsensusDbs :=
  match d with
  | .ackBundles d => do return { dbs with activeSidechains := ← d.undo dbs.activeSidechains }
  | .ackSidechainProposal d => d.undo dbs
  | .newSidechainProposal d => .ok (d.undo dbs)
  | .proposeBundle d => do return { dbs with activeSidechains := ← d.undo dbs.activeSidechains }

end CoinbaseMsg

structure FailedProposals where
  proposals : FinMap SidechainProposalId Sidechain
deriving DecidableEq

namespace FailedProposals

def apply (d : FailedProposals) (dbs : ConsensusDbs) : ConsensusDbs :=
  { dbs with proposalIdToSidechain := dbs.proposalIdToSidechain.eraseAll d.proposals.keys }

def undo (d : FailedProposals) (dbs : ConsensusDbs) : ConsensusDbs :=
  { dbs with proposalIdToSidechain := dbs.proposalIdToSidechain.insertAll d.proposals.toList }

end FailedProposals

/-- The failed bundles of a slot under their positions, in ascending order. -/
abbrev FailedPositions := List (ℕ × M6id × PendingM6idInfo)

structure FailedM6ids where
  failed : FinMap SidechainNumber FailedPositions
deriving DecidableEq

namespace FailedM6ids

/-- The loop over the pending bundles, with the failed positions still ahead. -/
def removeLoop : List (M6id × PendingM6idInfo) → List ℕ → ℕ → PendingM6ids → PendingM6ids
  | [], _, _, acc => acc
  | e::pending, [], idx, acc => removeLoop pending [] (idx+1) (acc.insert e.1 e.2)
  | e::pending, i::failed, idx, acc =>
    if i = idx then removeLoop pending failed (idx+1) acc
    else removeLoop pending (i::failed) (idx+1) (acc.insert e.1 e.2)

def removeFailedWithdrawals (failed : FailedPositions) (pending : PendingM6ids) : Res PendingM6ids :=
  if pending.len < failed.length then .error (.panic .failedM6idsCapacity)
  else .ok (removeLoop pending.entries (failed.map Prod.fst) 0 .empty)

/-- The loop that interleaves the failed bundles with the ones that stayed. -/
def refillLoop : FailedPositions → List (M6id × PendingM6idInfo) → ℕ → PendingM6ids → PendingM6ids
  | [], [], _, acc => acc
  | [], e::rest, idx, acc => refillLoop [] rest (idx+1) (acc.insert e.1 e.2)
  | (i,f)::failed, nonFailed, idx, acc =>
    if i = idx then refillLoop failed nonFailed (idx+1) (acc.insert f.1 f.2)
    else
      match nonFailed with
      | [] => acc
      | e::rest => refillLoop ((i,f)::failed) rest (idx+1) (acc.insert e.1 e.2)
termination_by failed nonFailed => failed.length+nonFailed.length

def refillPendingWithdrawals (failed : FailedPositions) (pending : PendingM6ids) : PendingM6ids :=
  refillLoop failed pending.entries 0 .empty

def apply (d : FailedM6ids) (dbs : ActiveSidechainDbs) : Res ActiveSidechainDbs :=
  d.failed.toList.foldlM
    (fun dbs e => dbs.withPendingWithdrawals e.1 (removeFailedWithdrawals e.2)) dbs

def undo (d : FailedM6ids) (dbs : ActiveSidechainDbs) : Res ActiveSidechainDbs :=
  d.failed.toList.foldlM
    (fun dbs e => dbs.withPendingWithdrawals e.1
      (fun pending => .ok (refillPendingWithdrawals e.2 pending))) dbs

end FailedM6ids

structure Coinbase where
  msgs : List CoinbaseMsg
  failedProposals : FailedProposals
  failedM6ids : FailedM6ids
deriving DecidableEq

namespace Coinbase

def undo (d : Coinbase) (dbs : ConsensusDbs) : Res ConsensusDbs := do
  let dbs := { dbs with activeSidechains := ← d.failedM6ids.undo dbs.activeSidechains }
  let dbs := d.failedProposals.undo dbs
  d.msgs.reverse.foldlM (fun dbs msg => msg.undo dbs) dbs

end Coinbase

structure M5 where
  newCtips : FinMap SidechainNumber Ctip
deriving DecidableEq

namespace M5

def apply (d : M5) (dbs : ActiveSidechainDbs) : ActiveSidechainDbs :=
  d.newCtips.toList.foldl (fun dbs e => dbs.putCtip e.1 e.2) dbs

def undo (d : M5) (dbs : ActiveSidechainDbs) : Res ActiveSidechainDbs :=
  d.newCtips.keys.foldlM ActiveSidechainDbs.deleteCtip dbs

end M5

structure M6 where
  sidechainNumber : SidechainNumber
  newCtip : Ctip
  removedPendingWithdrawal : M6id
  /-- Position of the removed bundle in the pending list. -/
  removedPendingWithdrawalIndex : ℕ
  removedPendingWithdrawalInfo : PendingM6idInfo
deriving DecidableEq

namespace M6

def apply (d : M6) (dbs : ActiveSidechainDbs) : Res ActiveSidechainDbs :=
  (dbs.putCtip d.sidechainNumber d.newCtip).deletePendingWithdrawal d.sidechainNumber
    d.removedPendingWithdrawal

def undo (d : M6) (dbs : ActiveSidechainDbs) : Res ActiveSidechainDbs := do
  let dbs ← dbs.deleteCtip d.sidechainNumber
  dbs.withPendingWithdrawals d.sidechainNumber (fun pending =>
    Fallible.require (pending.shiftInsert d.removedPendingWithdrawalIndex d.removedPendingWithdrawal
      d.removedPendingWithdrawalInfo) (.panic .shiftInsertIndex))

end M6

inductive Tx
  | m5 (d : M5)
  | m6 (d : M6)
deriving DecidableEq

namespace Tx

def apply (d : Tx) (dbs : ActiveSidechainDbs) : Res ActiveSidechainDbs :=
  match d with
  | .m5 d => .ok (d.apply dbs)
  | .m6 d => d.apply dbs

def undo (d : Tx) (dbs : ActiveSidechainDbs) : Res ActiveSidechainDbs :=
  match d with
  | .m5 d => d.undo dbs
  | .m6 d => d.undo dbs

end Tx

structure Block where
  coinbase : Coinbase
  txs : List Tx
deriving DecidableEq

namespace Block

def undo (d : Block) (dbs : ConsensusDbs) : Res ConsensusDbs := do
  let dbs := { dbs with
    activeSidechains := ← d.txs.reverse.foldlM (fun dbs tx => tx.undo dbs) dbs.activeSidechains }
  d.coinbase.undo dbs

end Block

end Diff
end Bip300301Enforcer
