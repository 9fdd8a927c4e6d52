import Bip300301Enforcer.BlindedM6
import Bip300301Enforcer.CoinbaseBuilder
import Bip300301Enforcer.Representation

/-! The coinbase messages of a block that the node produces: which proposal, acks, bundle
and votes it adds. -/
namespace Bip300301Enforcer
open Lib

inductive AckAllProposalsPolicy
  | none
  | newSlots
  | all
deriving DecidableEq

def AckAllProposalsPolicy.autoAcks (policy : AckAllProposalsPolicy) (slotIsUsed : Bool) : Bool :=
  match policy with
  | .none => false
  | .newSlots => !slotIsUsed
  | .all => true

/-- Which pending bundles are upvoted without an explicit ack. -/
inductive WithdrawalBundlePolicy
  | none
  | known
  | all
  | alarm
deriving DecidableEq

/-- One vote of an `M4`, for one active sidechain. -/
inductive WithdrawalBundleVote
  | abstain
  | alarm
  | upvote (index : UInt16)
deriving DecidableEq

namespace WithdrawalBundleVote

def firstMatching (pending : List M6id) (worthBacking : M6id → Bool) :
    Option WithdrawalBundleVote :=
  (pending.findIdx? worthBacking).bind (fun index =>
    if index < 2^16 then some (.upvote (UInt16.ofNat index)) else none)

/-- The vote for one sidechain. An explicit ack wins over the policy. -/
def resolve (policy : WithdrawalBundlePolicy) (pending acked ours : List M6id) :
    WithdrawalBundleVote :=
  match firstMatching pending (fun m6id => m6id ∈ acked) with
  | some vote => vote
  | none =>
    match policy with
    | .none => .abstain
    | .alarm => .alarm
    | .known => (firstMatching pending (fun m6id => m6id ∈ ours)).getD .abstain
    | .all => (firstMatching pending (fun _ => true)).getD .abstain

end WithdrawalBundleVote

namespace M4AckBundles

/-- The largest index that a one-byte vote can carry. -/
def maxOneByteUpvote : UInt16 := alarmOneByte.toUInt16-1

def needsTwoBytes : WithdrawalBundleVote → Bool
  | .upvote index => maxOneByteUpvote < index
  | _ => false

def twoByteVote : WithdrawalBundleVote → UInt16
  | .abstain => abstainTwoBytes
  | .alarm => alarmTwoBytes
  | .upvote index => index

def oneByteVote : WithdrawalBundleVote → UInt8
  | .abstain => abstainOneByte
  | .alarm => alarmOneByte
  | .upvote index => index.toUInt8

def fromVotes (votes : List WithdrawalBundleVote) : M4AckBundles :=
  if votes.any needsTwoBytes then .twoBytes (votes.map twoByteVote)
  else .oneByte (votes.map oneByteVote)

end M4AckBundles

structure SidechainAck where
  sidechainNumber : SidechainNumber
  descriptionHash : DescriptionHash
deriving DecidableEq

/-- Bundles that the node stores, with what the validator knows of each. -/
abbrev BundleProposals := List (M6id × BlindedM6 × Option PendingM6idInfo)

/-- What the policy database stores: the proposals that are not mined, the acks, and the
bundles that are not settled. -/
structure StoredPolicy where
  sidechainProposals : List SidechainProposal
  sidechainAcks : List SidechainAck
  bundleProposals : FinMap SidechainNumber (List (M6id × BlindedM6))
  bundleAcks : List (SidechainNumber × M6id)

inductive GenerateCoinbaseTxouts
  | coinbaseMessages (e : CoinbaseMessagesError)
  | validator (e : Error)
  | pushBytes (e : PushBytesError)

/-- `Iterator::min_by_key`: the first of the least elements. -/
def minByKey {α : Type} (lt : α → α → Bool) : List α → Option α
  | [] => none
  | a::l => some (l.foldl (fun least b => if lt b least then b else least) a)

def slotHashLt (a b : SidechainNumber × BitVec 256) : Bool :=
  ((compare a.1 b.1).then (compare (hashBytes a.2) (hashBytes b.2))).isLT

namespace BlockProducer

def getBundleProposals (dbs : Dbs) (stored : FinMap SidechainNumber (List (M6id × BlindedM6)))
    (usedSlots : List SidechainNumber) : Res (FinMap SidechainNumber BundleProposals) :=
  stored.toList.foldlM (fun res e =>
    if e.1 ∉ usedSlots then .ok res
    else do
      let pendingM6ids ← Database.get dbs.activeSidechains.pendingM6ids .pendingM6ids e.1
      let m6ids := e.2.map (fun m => (m.1,m.2,pendingM6ids.get? m.1))
      return if m6ids.isEmpty then res else res.insert e.1 m6ids) .empty

def usedSlots (activeSidechains : List Sidechain) : List SidechainNumber :=
  activeSidechains.map (fun sidechain => sidechain.proposal.sidechainNumber)

/-- One stored bundle that is not yet proposed. -/
def selectBundleProposal (bundleProposals : FinMap SidechainNumber BundleProposals) :
    Option (SidechainNumber × M6id) :=
  minByKey slotHashLt (bundleProposals.toList.flatMap (fun e =>
    (e.2.filter (fun m => m.2.2.isNone)).map (fun m => (e.1,m.1))))

/-- The pending proposals of the validator, one for each slot. -/
def getActiveSidechainProposals (dbs : Dbs) : FinMap SidechainNumber SidechainProposal :=
  dbs.proposalIdToSidechain.toList.foldl
    (fun m e => m.insert e.2.proposal.sidechainNumber e.2.proposal) .empty

variable [Bitcoin]

/-- Whether an ack is for the pending proposal of its slot. -/
def validateSidechainAck (ack : SidechainAck)
    (pendingProposals : FinMap SidechainNumber SidechainProposal) : Bool :=
  match pendingProposals.get? ack.sidechainNumber with
  | none => false
  | some proposal => sha256d proposal.description = ack.descriptionHash

def unusedSlotAcks (messages : CoinbaseMessages) (usedSlots : List SidechainNumber) :
    List SidechainProposalId :=
  messages.messages.filterMap (fun e =>
    match e.1 with
    | .m2AckSidechain s descriptionHash =>
      if s ∈ usedSlots then none else some ⟨s,descriptionHash⟩
    | _ => none)

/-- Whether an ack of the coinbase might activate an unused slot, so that an `M4` would
have to vote in one slot more. -/
def m2sMayActivateUnusedSlot (thresholds : Thresholds) (dbs : Dbs) (messages : CoinbaseMessages)
    (usedSlots : List SidechainNumber) (nextHeight : ℕ) : Bool :=
  if messages.m2AckSlots.isEmpty then false
  else
    let acks := unusedSlotAcks messages usedSlots
    if acks.isEmpty then false
    else
      dbs.proposalIdToSidechain.toList.any (fun e =>
        let votes := e.2.status.voteCount
        e.1 ∈ acks && thresholds.activatesUnusedSlot (if votes = 0xFFFF then votes else votes+1)
          (nextHeight-e.2.status.proposalHeight))

def addAutoAck (usedSlots : List SidechainNumber) (policy : AckAllProposalsPolicy)
    (acks : List SidechainAck) (e : SidechainNumber × SidechainProposal) : List SidechainAck :=
  if !policy.autoAcks (e.1 ∈ usedSlots) then acks
  else if acks.any (fun ack => ack.sidechainNumber = e.1) then acks
  else acks++[⟨e.1,sha256d e.2.description⟩]

/-- The acks to emit: the stored ones that are for pending proposals, and those that the
policy adds. The pending proposals are a hash map, which is visited in some order. -/
def selectSidechainAcks
    (order : List (SidechainNumber × SidechainProposal) → List (SidechainNumber × SidechainProposal))
    (storedAcks : List SidechainAck) (pendingProposals : FinMap SidechainNumber SidechainProposal)
    (usedSlots : List SidechainNumber) (policy : AckAllProposalsPolicy) : List SidechainAck :=
  (order pendingProposals.toList).foldl (addAutoAck usedSlots policy)
    (storedAcks.filter (fun ack => validateSidechainAck ack pendingProposals))

def selectSidechainProposal (queued : List SidechainProposal) (proposed : List SidechainProposalId) :
    Option SidechainProposal :=
  minByKey (fun a b => slotHashLt (a.sidechainNumber,sha256d a.description)
      (b.sidechainNumber,sha256d b.description))
    (queued.filter (fun proposal => proposal.computeId ∉ proposed))

/-- One vote for each active sidechain, in their order. -/
def selectBundleVotes (dbs : Dbs) (storedBundleAcks : List (SidechainNumber × M6id))
    (bundleProposals : FinMap SidechainNumber BundleProposals) (activeSidechains : List Sidechain)
    (policy : WithdrawalBundlePolicy) : Res (List WithdrawalBundleVote) :=
  activeSidechains.mapM (fun sidechain => do
    let slot := sidechain.proposal.sidechainNumber
    let pending ← Database.get dbs.activeSidechains.pendingM6ids .pendingM6ids slot
    let acked := (storedBundleAcks.filter (fun e => e.1 = slot)).map Prod.snd
    let ours := ((bundleProposals.get? slot).getD []).map (fun m => m.1)
    return .resolve policy pending.keys acked ours)

/-- Add the acks, at most one for each slot. -/
def ackSidechains (builder : CoinbaseBuilder) (acks : List SidechainAck) :
    Except CoinbaseMessagesError CoinbaseBuilder :=
  acks.foldlM (fun builder ack =>
    if (builder.messages.m2AckSlotVout ack.sidechainNumber).isSome then .ok builder
    else builder.ackSidechain ack.sidechainNumber ack.descriptionHash) builder

def proposeSomeSidechain (builder : CoinbaseBuilder) :
    Option SidechainProposal → Except CoinbaseMessagesError CoinbaseBuilder
  | none => .ok builder
  | some proposal => builder.proposeSidechain proposal

/-- Propose a bundle, unless there is an `M3` already. -/
def proposeSomeBundle (builder : CoinbaseBuilder) (selected : Option (SidechainNumber × M6id)) :
    Except CoinbaseMessagesError CoinbaseBuilder :=
  match selected with
  | none => .ok builder
  | some (s,m6id) =>
    if builder.messages.m3Exists then .ok builder else builder.proposeBundle s m6id

/-- Add the votes, unless all abstain or the coinbase might activate an unused slot. -/
def ackSomeBundles (thresholds : Thresholds) (dbs : Dbs) (builder : CoinbaseBuilder)
    (usedSlots : List SidechainNumber) (nextHeight : ℕ) (votes : List WithdrawalBundleVote) :
    Except CoinbaseMessagesError CoinbaseBuilder :=
  if votes.any (fun vote => vote ≠ .abstain) &&
      !m2sMayActivateUnusedSlot thresholds dbs builder.messages usedSlots nextHeight then
    builder.ackBundles (.fromVotes votes)
  else .ok builder

/-- Extend the coinbase outputs of a new block with `M1`, `M2`, `M3` and `M4`. -/
def extendCoinbaseTxouts
    (order : List (SidechainNumber × SidechainProposal) → List (SidechainNumber × SidechainProposal))
    (params : NetworkParams) (dbs : Dbs) (stored : StoredPolicy) (ackPolicy : AckAllProposalsPolicy)
    (bundlePolicy : WithdrawalBundlePolicy) (mainchainTip : BlockHash) (coinbaseTxouts : List TxOut) :
    Except GenerateCoinbaseTxouts (List TxOut) := do
  let info ← (dbs.blockHashes.getHeaderInfo mainchainTip).mapError .validator
  let nextHeight := info.height+1
  if nextHeight < params.bip300ActivationHeight then
    return coinbaseTxouts
  let builder ← (CoinbaseBuilder.new coinbaseTxouts).mapError .coinbaseMessages
  let builder ← (proposeSomeSidechain builder (selectSidechainProposal stored.sidechainProposals
    dbs.proposalIdToSidechain.keys)).mapError .coinbaseMessages
  let activeSidechains ← dbs.getActiveSidechains.mapError .validator
  let used := usedSlots activeSidechains
  let acks := selectSidechainAcks order stored.sidechainAcks (getActiveSidechainProposals dbs) used
    ackPolicy
  let builder ← (ackSidechains builder acks).mapError .coinbaseMessages
  let bundleProposals ← (getBundleProposals dbs stored.bundleProposals used).mapError .validator
  let builder ← (proposeSomeBundle builder (selectBundleProposal bundleProposals)).mapError
    .coinbaseMessages
  let votes ← (selectBundleVotes dbs stored.bundleAcks bundleProposals activeSidechains
    bundlePolicy).mapError .validator
  let builder ← (ackSomeBundles params.thresholds dbs builder used nextHeight votes).mapError
    .coinbaseMessages
  builder.build.mapError .pushBytes

end BlockProducer

end Bip300301Enforcer
