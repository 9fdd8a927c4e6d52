import Bip300301Enforcer.Diff
import Mathlib.Data.List.Sort

/-! The handlers of the messages that a block carries. Each handler reads the
tables and returns the diff that the caller then applies. -/
namespace Bip300301Enforcer
open Lib

/-- The consensus inputs that every handler needs. -/
structure BlockHandler where
  params : NetworkParams
  thresholds : Thresholds
  /-- Mempool admission turns this off. -/
  requirePayableBundles : Bool

namespace BlockHandler

def new (params : NetworkParams) : BlockHandler := ⟨params,params.thresholds,true⟩

end BlockHandler

/-- Vote margin for the `LeadingBy50` encoding. -/
def leadingBy50Margin : ℕ := 50

inductive CoinbaseMessageEvent
  | newSidechainProposal (sidechain : Sidechain)
  | withdrawalBundle (event : WithdrawalBundleEvent)

inductive TransactionEvent
  | deposits (deposits : FinMap SidechainNumber Deposit)
  | withdrawalBundle (event : WithdrawalBundleEvent)

def downvotedOthersForUpvote (pending : PendingM6ids) (upvoteTarget : M6id) : List M6id :=
  (pending.entries.filter (fun e => e.1 ≠ upvoteTarget && 0 < e.2.voteCount)).map Prod.fst

def positiveVotesProposalsForAlarm (pending : PendingM6ids) : List M6id :=
  (pending.entries.filter (fun e => 0 < e.2.voteCount)).map Prod.fst

/-- Check a BMM request against the accepted commitments and the parent block.
A transaction that is no request passes. -/
def handleM8 (tx : Transaction) (acceptedBmmRequests : Option BmmCommitments)
    (prevMainchainBlockHash : BlockHash) : Res Bool :=
  match parseM8Tx tx with
  | none => .ok false
  | some request =>
    let notAccepted := match acceptedBmmRequests with
      | none => false
      | some accepted => accepted.get? request.sidechainNumber ≠ some request.sidechainBlockHash
    if notAccepted then .error .notAcceptedByMiners
    else if request.prevMainchainBlockHash ≠ prevMainchainBlockHash then .error .bmmRequestExpired
    else .ok true

/-- Treasury outputs that no transaction of the block has consolidated yet. -/
structure UnconsolidatedCtips where
  byOutpoint : FinMap OutPoint (SidechainNumber × ℕ)
  bySidechain : FinMap SidechainNumber (List Ctip)

namespace UnconsolidatedCtips

def default : UnconsolidatedCtips := ⟨.empty,.empty⟩

/-- Inserting into a linked set moves the element to the back. -/
def linkedInsert (l : List Ctip) (ctip : Ctip) : List Ctip := l.filter (fun c => c ≠ ctip)++[ctip]

def insert (u : UnconsolidatedCtips) (s : SidechainNumber) (ctip : Ctip) : UnconsolidatedCtips :=
  { byOutpoint := u.byOutpoint.insert ctip.outpoint (s,ctip.value)
    bySidechain := u.bySidechain.insert s (linkedInsert ((u.bySidechain.get? s).getD []) ctip) }

def isEmpty (u : UnconsolidatedCtips) : Bool := u.byOutpoint.isEmpty

def remove (u : UnconsolidatedCtips) (o : OutPoint) : UnconsolidatedCtips :=
  match u.byOutpoint.get? o with
  | none => u
  | some (s,value) =>
    { byOutpoint := u.byOutpoint.erase o
      bySidechain :=
        match u.bySidechain.get? s with
        | none => u.bySidechain
        | some ctips =>
          let ctips := ctips.filter (fun c => c ≠ ⟨o,value⟩)
          if ctips.isEmpty then u.bySidechain.erase s else u.bySidechain.insert s ctips }

def getBySidechain (u : UnconsolidatedCtips) (s : SidechainNumber) : Option (List Ctip) :=
  u.bySidechain.get? s

def removeSidechain (u : UnconsolidatedCtips) (s : SidechainNumber) :
    List Ctip × UnconsolidatedCtips :=
  let res := (u.bySidechain.get? s).getD []
  (res,⟨res.foldl (fun m c => m.erase c.outpoint) u.byOutpoint,u.bySidechain.erase s⟩)

end UnconsolidatedCtips

/-- What a transaction spends and creates of one slot's treasury. -/
structure TxCtipsInfo where
  consolidatedCtipInput : Option Ctip
  unconsolidatedCtipInputs : List Ctip
  ctipOutput : Ctip
deriving DecidableEq

namespace TxCtipsInfo

def treasuryValueIn (i : TxCtipsInfo) : ℕ :=
  (i.consolidatedCtipInput.map Ctip.value).getD 0+(i.unconsolidatedCtipInputs.map Ctip.value).sum

end TxCtipsInfo

inductive DepositsOrSuccessfulWithdrawal
  | m5Deposits (deposits : FinMap SidechainNumber Deposit) (diff : Diff.M5)
  | m6Withdrawal (sidechainId : SidechainNumber) (m6id : M6id) (sequenceNumber : ℕ) (diff : Diff.M6)

namespace BlockHandler

variable [Bitcoin]

/-- `M1`, propose a sidechain. A proposal that is already there is ignored. -/
def handleM1ProposeSidechain (dbs : ConsensusDbs) (proposal : SidechainProposal)
    (proposalHeight : ℕ) : Option Diff.NewSidechainProposal :=
  if dbs.proposalIdToSidechain.contains proposal.computeId then none
  else some ⟨proposal.computeId,proposal,⟨0,proposalHeight,none⟩⟩

/-- Whether an ack that brings a proposal to these votes activates it. -/
def newSidechainActivated (h : BlockHandler) (slotIsUsed : Bool) (votes : UInt16) (age : ℕ) : Bool :=
  (slotIsUsed && h.thresholds.withdrawalBundleInclusionThreshold < votes &&
    age ≤ h.thresholds.withdrawalBundleMaxAge.toNat) ||
  (!slotIsUsed && h.thresholds.activatesUnusedSlot votes age)

/-- `M2`, ack a proposal of an earlier block. -/
def handleM2AckSidechain (h : BlockHandler) (dbs : ConsensusDbs) (height : ℕ)
    (s : SidechainNumber) (descriptionHash : DescriptionHash) :
    Res (Option Diff.AckSidechainProposal) :=
  let id : SidechainProposalId := ⟨s,descriptionHash⟩
  match dbs.proposalIdToSidechain.get? id with
  | none => .ok none
  | some sidechain =>
    if height = sidechain.status.proposalHeight then .ok none
    else do
      let votes ← incrementVotes sidechain.status.voteCount
      let age := height-sidechain.status.proposalHeight
      let existing := dbs.activeSidechains.sidechain.get? s
      let effect : Diff.Effect :=
        if h.newSidechainActivated existing.isSome votes age then
          match existing with
          | some replaced => .replaceActive replaced
          | none => .slotActivation
        else .noActivation
      return some ⟨id,effect⟩

/-- Whether a proposal is too old, or can no longer reach its threshold in time. -/
def proposalFailed (h : BlockHandler) (dbs : ConsensusDbs) (height : ℕ) (sidechain : Sidechain) :
    Bool :=
  let age := height-sidechain.status.proposalHeight
  let slotIsUsed := dbs.activeSidechains.sidechain.contains sidechain.proposal.sidechainNumber
  let maxAge := if slotIsUsed then h.thresholds.withdrawalBundleMaxAge.toNat
    else h.thresholds.unusedSidechainSlotProposalMaxAge.toNat
  let threshold := if slotIsUsed then h.thresholds.withdrawalBundleInclusionThreshold.toNat
    else h.thresholds.unusedSidechainSlotActivationThreshold.toNat
  let maxFails := maxAge-threshold
  let fails := age-sidechain.status.voteCount.toNat
  maxAge < age || (maxFails < age && maxFails ≤ fails)

def handleFailedSidechainProposals (h : BlockHandler) (dbs : ConsensusDbs) (height : ℕ) :
    Diff.FailedProposals :=
  ⟨dbs.proposalIdToSidechain.filter (fun _ sidechain => h.proposalFailed dbs height sidechain)⟩

/-- `M3`, propose a bundle for an active sidechain. -/
def handleM3ProposeBundle (dbs : ConsensusDbs) (s : SidechainNumber) (m6id : M6id) :
    Res Diff.ProposeBundle := do
  Fallible.ensure (dbs.activeSidechains.sidechain.contains s) (.inactiveSidechain s)
  let pending ← Database.get dbs.activeSidechains.pendingM6ids .pendingM6ids s
  Fallible.ensure (!pending.contains m6id) (.bundleAlreadyPending s m6id)
  return ⟨s,m6id⟩

/-- Add the action of an alarm, which downvotes the bundles that have votes. -/
def insertAlarm (d : Diff.AckBundles) (s : SidechainNumber) (pending : PendingM6ids) :
    Diff.AckBundles :=
  let positive := positiveVotesProposalsForAlarm pending
  if positive.isEmpty then d else ⟨d.actions.insert s (.alarm positive)⟩

/-- Add the action of an upvote, which downvotes the other bundles that have votes. -/
def insertUpvote (d : Diff.AckBundles) (s : SidechainNumber) (pending : PendingM6ids)
    (target : M6id) : Diff.AckBundles :=
  ⟨d.actions.insert s (.upvote target (downvotedOthersForUpvote pending target))⟩

/-- One vote of an `M4`: an index into the pending bundles, an abstention or an alarm. -/
def handleM4Vote (dbs : ConsensusDbs) (d : Diff.AckBundles) (e : SidechainNumber × UInt16) :
    Res Diff.AckBundles :=
  if e.2 = M4AckBundles.abstainTwoBytes then .ok d
  else do
    let pending ← Database.get dbs.activeSidechains.pendingM6ids .pendingM6ids e.1
    if e.2 = M4AckBundles.alarmTwoBytes then return insertAlarm d e.1 pending
    else
      let (m6id,info) ← Fallible.require (pending.getIndex e.2.toNat) (.upvoteFailed e.1 e.2)
      return if info.voteCount < 0xFFFF then insertUpvote d e.1 pending m6id else d

def handleM4Votes (dbs : ConsensusDbs) (upvotes : List UInt16) : Res Diff.AckBundles := do
  let active := dbs.activeSidechains.numbers
  Fallible.ensure (upvotes.length = active.length) (.invalidVotes active.length upvotes.length)
  (active.zip upvotes).foldlM (handleM4Vote dbs) .default

/-- The bundle that leads the others by the margin. -/
def leader (pending : PendingM6ids) : Option M6id :=
  let byVotes := (pending.entries.map (fun e => (e.1,e.2.voteCount))).insertionSort
    (fun a b => b.2 ≤ a.2)
  match byVotes with
  | [] => none
  | (m6id,lead)::rest =>
    let second := (rest.head?.map Prod.snd).getD 0
    if leadingBy50Margin ≤ lead.toNat-second.toNat && lead < 0xFFFF then some m6id else none

/-- `M4` version 3: upvote the bundle of each slot that leads by 50 votes. -/
def handleM4LeadingBy50 (dbs : ConsensusDbs) : Res Diff.AckBundles :=
  dbs.activeSidechains.numbers.foldlM (fun d s => do
    let pending ← Database.get dbs.activeSidechains.pendingM6ids .pendingM6ids s
    return match leader pending with
      | some m6id => insertUpvote d s pending m6id
      | none => d) .default

def repeatAction (dbs : ConsensusDbs) (d : Diff.AckBundles)
    (e : SidechainNumber × Diff.AckBundleAction) : Res Diff.AckBundles := do
  let pending ← Database.get dbs.activeSidechains.pendingM6ids .pendingM6ids e.1
  match e.2 with
  | .upvote target _ =>
    match pending.get? target with
    | none => return d
    | some info =>
      return if info.voteCount = 0xFFFF then d else insertUpvote d e.1 pending target
  | .alarm _ => return insertAlarm d e.1 pending

def ackBundlesOf (d : Diff.Block) : Option Diff.AckBundles :=
  d.coinbase.msgs.findSome? (fun
    | .ackBundles ab => some ab
    | _ => none)

/-- `M4` version 0: repeat the votes of the previous block. -/
def handleM4RepeatPrevious (dbs : ConsensusDbs) (prevBlockHash : BlockHash)
    (prevDiff : Option Diff.Block) : Res Diff.AckBundles :=
  if prevBlockHash = allZeros then .ok .default
  else do
    let prevDiff ← Fallible.require prevDiff (.db .diff)
    match ackBundlesOf prevDiff with
    | none => return .default
    | some prev => prev.actions.toList.foldlM (repeatAction dbs) .default

/-- The two-byte form of a one-byte vote. -/
def widenVote (vote : UInt8) : UInt16 :=
  if vote = M4AckBundles.abstainOneByte then M4AckBundles.abstainTwoBytes
  else if vote = M4AckBundles.alarmOneByte then M4AckBundles.alarmTwoBytes
  else vote.toUInt16

/-- `M4`, ack bundles, in its four encodings. -/
def handleM4AckBundles (dbs : ConsensusDbs) (prevBlockHash : BlockHash)
    (prevDiff : Option Diff.Block) : M4AckBundles → Res Diff.AckBundles
  | .leadingBy50 => handleM4LeadingBy50 dbs
  | .repeatPrevious => handleM4RepeatPrevious dbs prevBlockHash prevDiff
  | .oneByte upvotes => handleM4Votes dbs (upvotes.map widenVote)
  | .twoBytes upvotes =>
    if upvotes.all (fun v => v ≤ 253) then .error .twoBytesWithinByteRange
    else handleM4Votes dbs upvotes

/-- The bundles of a slot that are too old, with their positions. -/
def failedPositions (h : BlockHandler) (pending : PendingM6ids) (height : ℕ) :
    Diff.FailedPositions :=
  (pending.entries.zipIdx.filter (fun e =>
    h.thresholds.withdrawalBundleMaxAge.toNat < height-e.1.2.proposalHeight)).map
    (fun e => (e.2,e.1.1,e.1.2))

def handleFailedM6ids (h : BlockHandler) (dbs : ActiveSidechainDbs) (height : ℕ) :
    Res Diff.FailedM6ids :=
  dbs.numbers.foldlM (fun d s => do
    let pending ← Database.get dbs.pendingM6ids .pendingM6ids s
    let failed := h.failedPositions pending height
    return if failed.isEmpty then d else ⟨d.failed.insert s failed⟩) ⟨.empty⟩

/-- `M6`, look up the bundle that a withdrawal pays out. -/
def handleM6 (h : BlockHandler) (dbs : ActiveSidechainDbs) (tx : Transaction)
    (oldTreasuryValue : ℕ) : Res (M6id × SidechainNumber × ℕ × PendingM6idInfo) := do
  let (m6id,s) ← (h.params.opDrivechain.computeM6id tx oldTreasuryValue).mapError Error.m6id
  let pending ← Fallible.require (dbs.pendingM6ids.get? s)
    (.invalidM6 (.missingPendingWithdrawal m6id s))
  let (index,info) ← Fallible.require (pending.getFull m6id)
    (.invalidM6 (.missingPendingWithdrawal m6id s))
  Fallible.ensure
    (!h.requirePayableBundles || h.thresholds.withdrawalBundleInclusionThreshold < info.voteCount)
    (.invalidM6 (.insufficientVoteCount m6id h.thresholds.withdrawalBundleInclusionThreshold
      info.voteCount))
  return (m6id,s,index,info)

/-- An `OP_DRIVECHAIN` output is a treasury output only for an active slot, and
a transaction has at most one for each slot. -/
def fillOutput (h : BlockHandler) (dbs : ActiveSidechainDbs) (txid : Txid)
    (res : FinMap SidechainNumber TxCtipsInfo) (e : TxOut × ℕ) :
    Res (FinMap SidechainNumber TxCtipsInfo) :=
  match h.params.opDrivechain.parse e.1.scriptPubkey with
  | none => .ok res
  | some s =>
    if !dbs.sidechain.contains s then .ok res
    else if res.contains s then .error (.multipleOpDrivechainOutputs s)
    else .ok (res.insert s ⟨none,[],⟨txid,e.2⟩,e.1.value⟩)

/-- A spend of a treasury output needs a new treasury output of the same slot. -/
def fillInput (dbs : ActiveSidechainDbs) (u : UnconsolidatedCtips)
    (res : FinMap SidechainNumber TxCtipsInfo) (txin : TxIn) :
    Res (FinMap SidechainNumber TxCtipsInfo) :=
  let o := txin.previousOutput
  match dbs.ctipOutpointToValueSeq.get? o with
  | some (s,amount,_) => do
    let info ← Fallible.require (res.get? s) (.treasurySpentWithoutNewCtip s)
    Fallible.ensure info.consolidatedCtipInput.isNone (.panic .secondConsolidatedInput)
    return res.insert s { info with consolidatedCtipInput := some ⟨o,amount⟩ }
  | none =>
    match u.byOutpoint.get? o with
    | some (s,amount) => do
      let info ← Fallible.require (res.get? s) (.treasurySpentWithoutNewCtip s)
      return res.insert s { info with
        unconsolidatedCtipInputs := info.unconsolidatedCtipInputs.insert ⟨o,amount⟩ }
    | none => .ok res

/-- The treasury spends and new treasury outputs of a transaction. -/
def fillCtips (h : BlockHandler) (dbs : ActiveSidechainDbs) (u : UnconsolidatedCtips)
    (tx : Transaction) : Res (FinMap SidechainNumber TxCtipsInfo) := do
  let res ← tx.output.zipIdx.foldlM (h.fillOutput dbs tx.computeTxid) .empty
  tx.input.foldlM (fillInput dbs u) res

/-- A withdrawal spends nothing but its treasury. -/
def checkInputs (ctipInputs : List OutPoint) : List TxIn → Res Unit
  | [] => .ok ()
  | i::rest => do
    Fallible.ensure (i.previousOutput ∈ ctipInputs) (.invalidM6 (.unexpectedInput i.previousOutput))
    checkInputs ctipInputs rest

/-- The withdrawal of a transaction that lowers a slot's treasury. -/
def makeM6 (h : BlockHandler) (dbs : ActiveSidechainDbs) (tx : Transaction) (s : SidechainNumber)
    (info : TxCtipsInfo) : Res Diff.M6 := do
  let consolidated ← Fallible.require info.consolidatedCtipInput
    (.invalidM6 (.missingConsolidatedInput s))
  let ctipInputs := info.unconsolidatedCtipInputs.map Ctip.outpoint++[consolidated.outpoint]
  checkInputs ctipInputs tx.input
  Fallible.ensure (info.ctipOutput.outpoint.vout = 0)
    (.invalidM6 (.treasuryOutputIndex info.ctipOutput.outpoint.vout))
  let (m6id,s',index,pending) ← h.handleM6 dbs tx info.treasuryValueIn
  Fallible.ensure (s = s') (.panic .sidechainNumberMismatch)
  return ⟨s,info.ctipOutput,m6id,index,pending⟩

/-- The deposit of a transaction that raises a slot's treasury. An equal value
only consolidates deposits. -/
def makeDeposit (dbs : ActiveSidechainDbs) (tx : Transaction) (s : SidechainNumber)
    (info : TxCtipsInfo) : Res (Option Deposit) :=
  if info.treasuryValueIn < info.ctipOutput.value then do
    let output ← Fallible.require (tx.output[info.ctipOutput.outpoint.vout+1]?)
      (.missingDepositAddress s)
    let address ← Fallible.require (tryParseOpReturnAddress output.scriptPubkey)
      (.missingDepositAddress s)
    return some ⟨dbs.count s,info.ctipOutput.outpoint,address,
      info.ctipOutput.value-info.treasuryValueIn⟩
  else .ok none

/-- Whether the treasury output becomes the ctip of its slot. -/
def isNewCtip (dbs : ActiveSidechainDbs) (s : SidechainNumber) (info : TxCtipsInfo) : Bool :=
  info.consolidatedCtipInput.isSome || !dbs.ctip.contains s

def insertSome {V : Type} (m : FinMap SidechainNumber V) (s : SidechainNumber) :
    Option V → FinMap SidechainNumber V
  | some v => m.insert s v
  | none => m

/-- Add a withdrawal to what the transaction does so far. -/
def addM6 (dbs : ActiveSidechainDbs) (nCtipOutputs : ℕ) (d : Diff.M6) :
    Option DepositsOrSuccessfulWithdrawal → Res DepositsOrSuccessfulWithdrawal
  | none => .ok (.m6Withdrawal d.sidechainNumber d.removedPendingWithdrawal
      (dbs.count d.sidechainNumber) d)
  | some (.m5Deposits _ _) => .error .ambiguous
  | some (.m6Withdrawal _ _ _ _) => .error (.invalidM6 (.treasuryOutputCount nCtipOutputs))

def addM5 (s : SidechainNumber) (deposit : Option Deposit) (newCtip : Option Ctip) :
    Option DepositsOrSuccessfulWithdrawal → Res DepositsOrSuccessfulWithdrawal
  | none => .ok (.m5Deposits (insertSome .empty s deposit) ⟨insertSome .empty s newCtip⟩)
  | some (.m5Deposits deposits d) =>
    .ok (.m5Deposits (insertSome deposits s deposit) ⟨insertSome d.newCtips s newCtip⟩)
  | some (.m6Withdrawal _ _ _ _) => .error .ambiguous

/-- Classify what the transaction does to one slot, by comparing the new
treasury value with everything that it spends of the treasury. -/
def classify (h : BlockHandler) (dbs : ActiveSidechainDbs) (tx : Transaction) (nCtipOutputs : ℕ)
    (res : Option DepositsOrSuccessfulWithdrawal) (s : SidechainNumber) (info : TxCtipsInfo) :
    Res DepositsOrSuccessfulWithdrawal := do
  Fallible.ensure
    (!(info.ctipOutput.value = info.treasuryValueIn && info.unconsolidatedCtipInputs.isEmpty)) .zeroDiff
  if info.ctipOutput.value < info.treasuryValueIn then
    addM6 dbs nCtipOutputs (← h.makeM6 dbs tx s info) res
  else
    let deposit ← makeDeposit dbs tx s info
    addM5 s deposit (if isNewCtip dbs s info then some info.ctipOutput else none) res

/-- Take the spent outputs out, and put the new one in unless it is a ctip. -/
def updateUnconsolidated (dbs : ActiveSidechainDbs) (u : UnconsolidatedCtips)
    (s : SidechainNumber) (info : TxCtipsInfo) : UnconsolidatedCtips :=
  let u := info.unconsolidatedCtipInputs.foldl (fun u c => u.remove c.outpoint) u
  if isNewCtip dbs s info then u else u.insert s info.ctipOutput

def handleSlot (h : BlockHandler) (dbs : ActiveSidechainDbs) (tx : Transaction) (nCtipOutputs : ℕ)
    (acc : Option DepositsOrSuccessfulWithdrawal × UnconsolidatedCtips)
    (e : SidechainNumber × TxCtipsInfo) :
    Res (Option DepositsOrSuccessfulWithdrawal × UnconsolidatedCtips) := do
  let res ← h.classify dbs tx nCtipOutputs acc.1 e.1 e.2
  return (some res,updateUnconsolidated dbs acc.2 e.1 e.2)

/-- `M5` and `M6`, deposits and withdrawals. -/
def handleM5M6 (h : BlockHandler) (dbs : ActiveSidechainDbs) (u : UnconsolidatedCtips)
    (tx : Transaction) : Res (Option DepositsOrSuccessfulWithdrawal × UnconsolidatedCtips) := do
  let infos ← h.fillCtips dbs u tx
  infos.toList.foldlM (h.handleSlot dbs tx infos.toList.length) (none,u)

/-- The event and the diff of a coinbase message, and the accepted BMM requests. -/
def handleCoinbaseMessage (h : BlockHandler) (dbs : ConsensusDbs) (height : ℕ)
    (prevBlockHash : BlockHash) (prevDiff : Option Diff.Block) (accepted : BmmCommitments) :
    CoinbaseMessage → Res (Option CoinbaseMessageEvent × Option Diff.CoinbaseMsg × BmmCommitments)
  | .m1ProposeSidechain s description =>
    match handleM1ProposeSidechain dbs ⟨s,description⟩ height with
    | some d => .ok (some (.newSidechainProposal d.sidechain),some (.newSidechainProposal d),accepted)
    | none => .ok (none,none,accepted)
  | .m2AckSidechain s descriptionHash => do
    let d ← h.handleM2AckSidechain dbs height s descriptionHash
    return (none,d.map .ackSidechainProposal,accepted)
  | .m3ProposeBundle s bundleTxid => do
    let d ← handleM3ProposeBundle dbs s bundleTxid
    return (some (.withdrawalBundle ⟨s,bundleTxid,.submitted⟩),some (.proposeBundle d),accepted)
  | .m4AckBundles m4 => do
    let d ← handleM4AckBundles dbs prevBlockHash prevDiff m4
    return (none,if d.actions.isEmpty then none else some (.ackBundles d),accepted)
  | .m7BmmAccept s commitment =>
    if accepted.contains s then .error (.multipleBmmBlocks s)
    else .ok (none,none,accepted.insert s commitment)

/-- What a transaction does to the treasuries, after its BMM request is checked. -/
def transactionResult (tx : Transaction) :
    Option DepositsOrSuccessfulWithdrawal → Option (TransactionEvent × Diff.Tx)
  | none => none
  | some (.m5Deposits deposits d) => some (.deposits deposits,.m5 d)
  | some (.m6Withdrawal s m6id sequenceNumber d) =>
    some (.withdrawalBundle ⟨s,m6id,.succeeded sequenceNumber tx⟩,.m6 d)

def handleTransaction (h : BlockHandler) (dbs : ActiveSidechainDbs)
    (accepted : Option BmmCommitments) (u : UnconsolidatedCtips)
    (prevMainchainBlockHash : BlockHash) (tx : Transaction) :
    Res (Option (TransactionEvent × Diff.Tx) × UnconsolidatedCtips) := do
  let (res,u) ← h.handleM5M6 dbs u tx
  let _ ← handleM8 tx accepted prevMainchainBlockHash
  return (transactionResult tx res,u)

end BlockHandler

end Bip300301Enforcer
