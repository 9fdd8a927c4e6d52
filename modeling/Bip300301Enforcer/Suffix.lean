import Bip300301Enforcer.CusfEnforcer
import Bip300301Enforcer.ExtendCoinbase
import Bip300301Enforcer.Lib.Bytes

/-! The end of a block that the node produces: the withdrawals of the approved bundles, and
a transaction that consolidates the deposits that are left. -/
namespace Bip300301Enforcer
open Lib

def varIntSize (n : ℕ) : ℕ :=
  if n < 0xFD then 1 else if n < 2^16 then 3 else if n < 2^32 then 5 else 9

namespace TxIn

def size (i : TxIn) : ℕ := 36+varIntSize i.scriptSig.length+i.scriptSig.length+4

end TxIn

namespace TxOut

def size (o : TxOut) : ℕ := 8+varIntSize o.scriptPubkey.length+o.scriptPubkey.length

end TxOut

namespace Transaction

/-- The bytes of a transaction without its witness data. -/
def baseSize (tx : Transaction) : ℕ :=
  4+varIntSize tx.input.length+(tx.input.map TxIn.size).sum+varIntSize tx.output.length+
    (tx.output.map TxOut.size).sum+4

def weight (tx : Transaction) : ℕ := 4*tx.baseSize

end Transaction

namespace OpDrivechain

def createM5DepositOutput (op : OpDrivechain) (s : SidechainNumber) (depositAmount : ℕ) : TxOut :=
  ⟨depositAmount,op.script s⟩

end OpDrivechain

/-- `Amount::MAX_MONEY`. -/
def maxMoney : ℕ := 21000000*100000000

/-- The treasuries within a block. -/
structure Ctips where
  consolidated : FinMap SidechainNumber Ctip
  unconsolidated : UnconsolidatedCtips

/-- Treasuries and pending bundles, as of some block. -/
structure WithdrawalState where
  ctips : Ctips
  pendingWithdrawals : FinMap SidechainNumber PendingM6ids

inductive GenerateSuffixTxsError
  | getBundleProposals (e : Error)
  | amount (e : IntoM6Error)

/-- The orders in which the hash maps of bundles and of deposits are visited. -/
structure VisitOrder where
  proposals : List (SidechainNumber × BundleProposals) → List (SidechainNumber × BundleProposals)
  ctips : List (SidechainNumber × List Ctip) → List (SidechainNumber × List Ctip)
  proposals_perm (l : List (SidechainNumber × BundleProposals)) : (proposals l).Perm l
  ctips_perm (l : List (SidechainNumber × List Ctip)) : (ctips l).Perm l

namespace BlockHandler

variable [Bitcoin] (h : BlockHandler)

/-- The treasuries and pending bundles after a block that is applied and not recorded.
There are none when the block is rejected. -/
def getWithdrawalStateAfter (dbs : Dbs) (block : Block) : Res (Option WithdrawalState) :=
  match storeHeader dbs block with
  | none => .ok none
  | some dbs =>
    match h.partialConnectBlock dbs block with
    | .ok (info,dbs) =>
      .ok (some ⟨⟨dbs.activeSidechains.ctip,info.unconsolidatedCtips⟩,
        dbs.activeSidechains.pendingM6ids⟩)
    | .error err =>
      match err.fatality with
      | .jfyi => .ok none
      | .fatal | .panic => .error err

end BlockHandler

namespace BlockProducer

def newTreasuryValue (value fee payout : ℕ) : Except IntoM6Error ℕ :=
  Fallible.require ((checkedSub value fee).bind (fun value => checkedSub value payout))
    .amountUnderflow

variable [Bitcoin]

/-- The withdrawal of a bundle from the given treasury outputs, and the ctip that it
leaves. -/
def finalizeM6 (op : OpDrivechain) (s : SidechainNumber) (consolidatedCtip : Ctip)
    (unconsolidatedCtips : List Ctip) (blindedM6 : BlindedM6) :
    Except IntoM6Error (Transaction × Ctip) := do
  let treasuryValueIn ← Fallible.require
    (checkedSum ((consolidatedCtip::unconsolidatedCtips).map Ctip.value)) .panic
  let newValue ← newTreasuryValue treasuryValueIn blindedM6.fee blindedM6.payout
  let m6 ← blindedM6.intoM6 op s consolidatedCtip unconsolidatedCtips
  return (m6,⟨⟨m6.computeTxid,0⟩,newValue⟩)

/-- Pay the approved bundles of a slot one after the other. A bundle that asks for more
than the treasury is skipped, and without a treasury none is paid. -/
def payBundles (params : NetworkParams) (s : SidechainNumber) :
    BundleProposals → Ctips → Except IntoM6Error (List Transaction × Ctips)
  | [], ctips => .ok ([],ctips)
  | (_,_,none)::rest, ctips => payBundles params s rest ctips
  | (_,blindedM6,some info)::rest, ctips =>
    if info.voteCount ≤ params.thresholds.withdrawalBundleInclusionThreshold then
      payBundles params s rest ctips
    else
      match ctips.consolidated.get? s with
      | none => .ok ([],ctips)
      | some consolidatedCtip =>
        let unconsolidatedCtips := (ctips.unconsolidated.getBySidechain s).getD []
        match finalizeM6 params.opDrivechain s consolidatedCtip unconsolidatedCtips blindedM6 with
        | .error .panic => .error .panic
        | .error .amountUnderflow => payBundles params s rest ctips
        | .ok (m6,successor) => do
          let (txs,ctips) ← payBundles params s rest ⟨ctips.consolidated.insert s successor,
            (ctips.unconsolidated.removeSidechain s).2⟩
          return (m6::txs,ctips)

/-- Pay the approved bundles of one slot after the other. -/
def payAll (params : NetworkParams) :
    List (SidechainNumber × BundleProposals) → Ctips → Except IntoM6Error (List Transaction × Ctips)
  | [], ctips => .ok ([],ctips)
  | (s,m6ids)::rest, ctips => do
    let (txs,ctips) ← payBundles params s m6ids ctips
    let (txs',ctips) ← payAll params rest ctips
    return (txs++txs',ctips)

/-- Add the treasury outputs of one slot to the transaction that consolidates them. -/
def consolidateSlot (op : OpDrivechain) (consolidated : FinMap SidechainNumber Ctip)
    (tx : Transaction) (e : SidechainNumber × List Ctip) : Except IntoM6Error Transaction := do
  let inputs := (consolidated.get? e.1).toList++e.2
  let valueOut ← Fallible.require (checkedSum (inputs.map Ctip.value)) .panic
  return { tx with
    input := tx.input++inputs.map (fun ctip => .spending ctip.outpoint)
    output := tx.output++[op.createM5DepositOutput e.1 valueOut] }

/-- The withdrawals of the approved bundles, and the transaction that consolidates the
deposits that no withdrawal spends. Only a sum of amounts that overflows fails. -/
def suffixTxsForProposals (order : VisitOrder) (bundleProposals : List (SidechainNumber × BundleProposals))
    (ctips : Ctips) (params : NetworkParams) : Except IntoM6Error (List Transaction) := do
  let (txs,ctips) ← payAll params bundleProposals ctips
  if ctips.unconsolidated.isEmpty then return txs
  else
    let m5 ← (order.ctips ctips.unconsolidated.bySidechain.toList).foldlM
      (consolidateSlot params.opDrivechain ctips.consolidated) ⟨2,0,[],[]⟩
    return txs++[m5]

/-- Whether a bundle has more votes than the threshold once the transactions of a block
are applied. -/
def stillPayable (threshold : UInt16) (pendingWithdrawals : FinMap SidechainNumber PendingM6ids)
    (s : SidechainNumber) (m6id : M6id) : Bool :=
  match (pendingWithdrawals.get? s).bind (fun pending => pending.get? m6id) with
  | none => false
  | some after => threshold < after.voteCount

/-- Leave out the bundles that the block settles or votes down. -/
def keepPayable (threshold : UInt16) (pendingWithdrawals : FinMap SidechainNumber PendingM6ids)
    (e : SidechainNumber × BundleProposals) : SidechainNumber × BundleProposals :=
  (e.1,e.2.map (fun m =>
    (m.1,m.2.1,if stillPayable threshold pendingWithdrawals e.1 m.1 then m.2.2 else none)))

/-- The transactions that end a block on top of the tip. -/
def generateSuffixTxs (order : VisitOrder) (params : NetworkParams) (dbs : Dbs)
    (stored : FinMap SidechainNumber (List (M6id × BlindedM6))) (ctips : Ctips)
    (pendingWithdrawals : Option (FinMap SidechainNumber PendingM6ids)) :
    Except GenerateSuffixTxsError (List Transaction) := do
  let activeSidechains ← dbs.getActiveSidechains.mapError .getBundleProposals
  let bundleProposals ← (getBundleProposals dbs stored (usedSlots activeSidechains)).mapError
    .getBundleProposals
  let entries := order.proposals bundleProposals.toList
  let entries := match pendingWithdrawals with
    | none => entries
    | some pending =>
      entries.map (keepPayable params.thresholds.withdrawalBundleInclusionThreshold pending)
  (suffixTxsForProposals order entries ctips params).mapError .amount

def fakeCtip (s : SidechainNumber) : Ctip :=
  ⟨⟨BitVec.ofNat 256 (Bytes.leNat (List.replicate 32 s)),0⟩,maxMoney⟩

/-- Every slot has such a treasury. -/
def fakeCtips : Ctips :=
  { consolidated := FinMap.empty.insertAll
      ((List.range 256).map (fun n => (UInt8.ofNat n,fakeCtip (UInt8.ofNat n))))
    unconsolidated := .default }

/-- The transactions whose weight is reserved before the other transactions are chosen. -/
def reservedSuffixTxs (order : VisitOrder) (params : NetworkParams) (dbs : Dbs)
    (stored : FinMap SidechainNumber (List (M6id × BlindedM6))) :
    Except GenerateSuffixTxsError (List Transaction) :=
  generateSuffixTxs order params dbs stored fakeCtips none

end BlockProducer

end Bip300301Enforcer
