import Bip300301Enforcer.Messages

/-! Blinded withdrawals: transactions without inputs, whose first output states the fee. -/
namespace Bip300301Enforcer
open Lib

inductive BlindedM6Error
  | nonEmptyInputs
  | missingFeeOutput
  | nonZeroValue
  | amountOverflow
  | zeroPayout
  | script
  | invalidSpk (spk : Script)
deriving DecidableEq

/-- Summing up more treasury than there is money panics. -/
inductive IntoM6Error
  | amountUnderflow
  | panic
deriving DecidableEq

/-- A withdrawal without its treasury. Only `tryFrom` makes one. -/
structure BlindedM6 where
  fee : ℕ
  payout : ℕ
  tx : Transaction
deriving DecidableEq

namespace BlindedM6

variable [Bitcoin]

/-- The fee that the script of the first output states, as `OP_RETURN <eight bytes>`. -/
def readFee (spk : Script) : Except BlindedM6Error ℕ :=
  match instructions spk with
  | none::_ => .error .script
  | some (.op code)::rest =>
    if code ≠ opReturn then .error (.invalidSpk spk)
    else
      match rest with
      | none::_ => .error .script
      | some (.pushBytes feeBeBytes)::rest =>
        if feeBeBytes.length ≠ 8 then .error (.invalidSpk spk)
        else if rest.isEmpty then .ok (fromBeBytes feeBeBytes)
        else .error (.invalidSpk spk)
      | _ => .error (.invalidSpk spk)
  | _ => .error (.invalidSpk spk)

def tryFrom (tx : Transaction) : Except BlindedM6Error BlindedM6 := do
  Fallible.ensure tx.input.isEmpty .nonEmptyInputs
  let feeOutput ← Fallible.require tx.output.head? .missingFeeOutput
  Fallible.ensure (feeOutput.value = 0) .nonZeroValue
  let payout ← Fallible.require (checkedSum (tx.output.map TxOut.value)) .amountOverflow
  Fallible.ensure (payout ≠ 0) .zeroPayout
  let fee ← readFee feeOutput.scriptPubkey
  return ⟨fee,payout,tx⟩

def computeM6id (m : BlindedM6) : M6id := m.tx.computeTxid

/-- The withdrawal that spends the given treasury outputs. The treasury output takes the
place of the fee output. There is none when the treasury is too small. -/
def intoM6 (m : BlindedM6) (op : OpDrivechain) (s : SidechainNumber) (consolidatedCtipInput : Ctip)
    (unconsolidatedCtipInputs : List Ctip) : Except IntoM6Error Transaction := do
  let inputs := consolidatedCtipInput::unconsolidatedCtipInputs
  let treasuryValueIn ← Fallible.require (checkedSum (inputs.map Ctip.value)) .panic
  let rest ← Fallible.require (checkedSub treasuryValueIn m.payout) .amountUnderflow
  let treasuryOutputValue ← Fallible.require (checkedSub rest m.fee) .amountUnderflow
  return { m.tx with
    input := inputs.map (fun ctip => .spending ctip.outpoint)
    output := ⟨treasuryOutputValue,op.script s⟩::m.tx.output.tail }

end BlindedM6

end Bip300301Enforcer
