import Bip300301Enforcer.Errors
import Mathlib.Data.PNat.Basic

/-! The tables of the validator and the operations that write several of them
at once. A write transaction passes the tables along, and a failing operation
returns none, so that an aborted transaction leaves nothing behind. -/
namespace Bip300301Enforcer
open Std Lib

abbrev SlotSequence := SidechainNumber × ℕ

instance : Ord SlotSequence := lexOrd

abbrev Database (K V : Type) [Ord K] := FinMap K V

namespace Database

variable {K V : Type} [Ord K] [TransOrd K]

def get (m : Database K V) (table : Table) (k : K) : Res V := Fallible.require (m.get? k) (.db table)

@[simp] theorem get_ok (m : Database K V) (table : Table) (k : K) (v : V) :
    get m table k = .ok v ↔ m.get? k = some v := by simp [get]

end Database

structure ActiveSidechainDbs where
  ctip : Database SidechainNumber Ctip
  ctipOutpointToValueSeq : Database OutPoint (SidechainNumber × ℕ × ℕ)
  pendingM6ids : Database SidechainNumber PendingM6ids
  sidechain : Database SidechainNumber Sidechain
  slotSequenceToTreasuryUtxo : Database SlotSequence TreasuryUtxo
  treasuryUtxoCount : Database SidechainNumber ℕ+
deriving DecidableEq

namespace ActiveSidechainDbs

def empty : ActiveSidechainDbs := ⟨.empty,.empty,.empty,.empty,.empty,.empty⟩

def numbers (dbs : ActiveSidechainDbs) : List SidechainNumber := dbs.sidechain.keys

/-- The number of treasury outputs that a slot has had. -/
def count (dbs : ActiveSidechainDbs) (s : SidechainNumber) : ℕ :=
  match dbs.treasuryUtxoCount.get? s with
  | some n => n
  | none => 0

def treasuryValue (dbs : ActiveSidechainDbs) (s : SidechainNumber) : ℕ :=
  match dbs.ctip.get? s with
  | some ctip => ctip.value
  | none => 0

def putCtip (dbs : ActiveSidechainDbs) (s : SidechainNumber) (ctip : Ctip) : ActiveSidechainDbs :=
  let sequenceNumber := dbs.count s
  { dbs with
    slotSequenceToTreasuryUtxo := dbs.slotSequenceToTreasuryUtxo.insert (s,sequenceNumber)
      ⟨s,ctip.outpoint,ctip.value,dbs.treasuryValue s⟩
    treasuryUtxoCount := dbs.treasuryUtxoCount.insert s sequenceNumber.succPNat
    ctip := dbs.ctip.insert s ctip
    ctipOutpointToValueSeq :=
      dbs.ctipOutpointToValueSeq.insert ctip.outpoint (s,ctip.value,sequenceNumber) }

/-- Delete a ctip, as part of a block disconnect. -/
def deleteCtip (dbs : ActiveSidechainDbs) (s : SidechainNumber) : Res ActiveSidechainDbs := do
  let ctip ← Database.get dbs.ctip .ctip s
  let ctipOutpointToValueSeq := dbs.ctipOutpointToValueSeq.erase ctip.outpoint
  let treasuryUtxoCount ← Database.get dbs.treasuryUtxoCount .treasuryUtxoCount s
  let sequenceNumber := treasuryUtxoCount.natPred
  let slotSequenceToTreasuryUtxo := dbs.slotSequenceToTreasuryUtxo.erase (s,sequenceNumber)
  match sequenceNumber with
  | 0 =>
    return { dbs with
      ctipOutpointToValueSeq
      treasuryUtxoCount := dbs.treasuryUtxoCount.erase s
      slotSequenceToTreasuryUtxo
      ctip := dbs.ctip.erase s }
  | prev+1 =>
    let utxo ← Database.get slotSequenceToTreasuryUtxo .slotSequenceToTreasuryUtxo (s,prev)
    return { dbs with
      ctipOutpointToValueSeq
      treasuryUtxoCount := dbs.treasuryUtxoCount.insert s prev.succPNat
      slotSequenceToTreasuryUtxo
      ctip := dbs.ctip.insert s ⟨utxo.outpoint,utxo.totalValue⟩ }

/-- Store a new active sidechain. A replaced sidechain leaves its pending
bundles to the new one. -/
def putSidechain (dbs : ActiveSidechainDbs) (s : SidechainNumber) (sidechain : Sidechain) :
    ActiveSidechainDbs :=
  { dbs with
    pendingM6ids :=
      if dbs.pendingM6ids.contains s then dbs.pendingM6ids
      else dbs.pendingM6ids.insert s .empty
    sidechain := dbs.sidechain.insert s sidechain }

def deleteSidechain (dbs : ActiveSidechainDbs) (s : SidechainNumber) : ActiveSidechainDbs :=
  { dbs with pendingM6ids := dbs.pendingM6ids.erase s, sidechain := dbs.sidechain.erase s }

/-- Apply a function to the pending bundles of a slot. -/
def withPendingWithdrawals (dbs : ActiveSidechainDbs) (s : SidechainNumber)
    (f : PendingM6ids → Res PendingM6ids) : Res ActiveSidechainDbs := do
  let pending ← Database.get dbs.pendingM6ids .pendingM6ids s
  let pending ← f pending
  return { dbs with pendingM6ids := dbs.pendingM6ids.insert s pending }

def putPendingM6id (dbs : ActiveSidechainDbs) (s : SidechainNumber) (m6id : M6id)
    (proposalHeight : ℕ) : Res ActiveSidechainDbs :=
  dbs.withPendingWithdrawals s (fun pending => .ok (pending.insert m6id (.new proposalHeight)))

def deletePendingWithdrawal (dbs : ActiveSidechainDbs) (s : SidechainNumber) (m6id : M6id) :
    Res ActiveSidechainDbs :=
  dbs.withPendingWithdrawals s (fun pending => .ok (pending.remove m6id))

/-- `saturating_sub(1)`. -/
def downvote (info : PendingM6idInfo) : PendingM6idInfo :=
  if info.voteCount = 0 then info else { info with voteCount := info.voteCount-1 }

def alarmPendingM6ids (dbs : ActiveSidechainDbs) (s : SidechainNumber) : Res ActiveSidechainDbs :=
  dbs.withPendingWithdrawals s (fun pending => .ok (pending.mapVals (fun _ info => downvote info)))

end ActiveSidechainDbs

/-- The tables that a block diff reads and writes. -/
structure ConsensusDbs where
  activeSidechains : ActiveSidechainDbs
  proposalIdToSidechain : Database SidechainProposalId Sidechain
deriving DecidableEq

def ConsensusDbs.empty : ConsensusDbs := ⟨.empty,.empty⟩

end Bip300301Enforcer
