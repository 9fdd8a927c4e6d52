import Bip300301Enforcer.TreasuryTrace
import Bip300301Enforcer.SequenceNumbers

/-! The wallet's list of its deposits. The wallet reads off the treasury history what the
validator computed from the inputs of a deposit. -/
namespace Bip300301Enforcer
open Lib Chain BlockHandler ActiveSidechainDbs

section Wallet

variable [Bitcoin]

def Transaction.destinationAddress (tx : Transaction) : Option (List UInt8) :=
  (tx.output[1]?).bind (fun out => tryParseOpReturnAddress out.scriptPubkey)

namespace Wallet

variable {op : OpDrivechain} {dbs : ActiveSidechainDbs} {tx : Transaction}
  {wallet : List Transaction}

end Wallet

end Wallet

section Credited

variable [Bitcoin] {h : BlockHandler} {V : Chain → Block → Prop} {c : Chain} {t : ConsensusDbs}
  {b : Block} {coinbase : Transaction} {txs : List Transaction} {res : ProcessedBlock}
  {D : BlockHash → Option Diff.Block} {E : BlockHash → Option (List BlockEvent)}
  {reads : List ReadTx} {st : ReadTx} {s : SidechainNumber} {ds : FinMap SidechainNumber Deposit}

/-- The deposit that a transaction makes into a slot. -/
def ReadTx.deposit (h : BlockHandler) (s : SidechainNumber) (st : ReadTx) : Option Deposit :=
  (st.info h s).bind (fun info => (makeDeposit st.before.dbs st.tx s info).toOption.join)

end Credited

section Agreement
open Wallet

variable [Bitcoin] {h : BlockHandler} {used : Txid → Prop} {reads : List ReadTx} {st : ReadTx}
  {a : ActiveSidechainDbs} {s s' : SidechainNumber} {info : TxCtipsInfo} {out : TxOut}
  {tx : Transaction}

theorem ReadOk.ctipOutput (hok : ReadOk h st) (hout : st.tx.output.head? = some out)
    (hp : h.params.opDrivechain.parse out.scriptPubkey = some s) (hi : st.info h s = some info) :
    info.ctipOutput = ⟨st.tx.outpoint 0,out.value⟩ := by
  obtain ⟨infos,r,hd⟩ := hok.done
  obtain ⟨hform,-⟩ := fillCtips_ok.mp hd.fill
  have hact := (slotInfo_output hi).1
  have hmem : (out,0) ∈ h.params.opDrivechain.slotOutputs st.tx.output.zipIdx s := by
    rw [List.head?_eq_getElem?] at hout
    refine List.mem_filter.mpr ⟨?_,by simpa using hp⟩
    rw [List.mem_zipIdx_iff_getElem?]
    exact hout
  obtain ⟨info',hi',hco⟩ := slotInfo_of_mem (u := st.before.unconsolidatedCtips) hact
    (hform.oneOutput s hact) hmem
  obtain rfl := Option.some.inj (hi.symm.trans hi')
  exact hco

theorem ReadOk.address (hok : ReadOk h st) (hout : st.tx.output.head? = some out)
    (hp : h.params.opDrivechain.parse out.scriptPubkey = some s) (hi : st.info h s = some info)
    (hlt : info.treasuryValueIn < out.value) : ∃ address, st.tx.destinationAddress = some address := by
  obtain ⟨infos,r,hd⟩ := hok.done
  have hco := hok.ctipOutput hout hp hi
  obtain ⟨new,-,hslot⟩ := hd.slotEvents s
  rcases hslot with ⟨hn,-⟩ | ⟨info',m6id,hi',hlow,-⟩ | ⟨info',ds,hi',hdep,-⟩
  · rw [ReadTx.info,hn] at hi
    cases hi
  · obtain rfl := Option.some.inj (hi.symm.trans hi')
    rw [hco] at hlow
    exact absurd hlow (by dsimp only; omega)
  · obtain rfl := Option.some.inj (hi.symm.trans hi')
    have hm := hdep.deposit
    rw [makeDeposit,hco,if_pos hlt] at hm
    simp only [Fallible.bind_ok,Fallible.require_ok,Fallible.pure_ok] at hm
    obtain ⟨out₁,hout₁,address,haddr,-⟩ := hm
    have hout₁ : st.tx.output[1]? = some out₁ := hout₁
    exact ⟨address,by rw [Transaction.destinationAddress,hout₁]; exact haddr⟩

theorem ReadOk.consolidates (hok : ReadOk h st) (hi : st.info h s = some info)
    (heq : info.ctipOutput.value = info.treasuryValueIn) : info.unconsolidatedCtipInputs ≠ [] := by
  obtain ⟨infos,r,hd⟩ := hok.done
  obtain ⟨new,-,hslot⟩ := hd.slotEvents s
  rcases hslot with ⟨hn,-⟩ | ⟨info',m6id,hi',hlow,-⟩ | ⟨info',ds,hi',hdep,-⟩
  · rw [ReadTx.info,hn] at hi
    cases hi
  · obtain rfl := Option.some.inj (hi.symm.trans hi')
    omega
  · obtain rfl := Option.some.inj (hi.symm.trans hi')
    exact hdep.consolidates heq

variable {V : Chain → Block → Prop} {c : Chain} {t : ConsensusDbs}
  {D : BlockHash → Option Diff.Block} {E : BlockHash → Option (List BlockEvent)}

end Agreement

section Sample

open Sample NumberingSample Wallet

end Sample

end Bip300301Enforcer
