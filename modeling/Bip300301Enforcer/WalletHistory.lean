import Bip300301Enforcer.Script
import Bip300301Enforcer.Types

/-! The transactions that the wallet lists, with what each brought the wallet or cost it. -/
namespace Bip300301Enforcer
open Lib Std

/-- Why the wallet's transactions cannot be listed. The last two are panics. -/
inductive ListWalletTransactions
  | fetchTransaction (txid : Txid)
  | deserializeHex
  | indexOutOfBounds
  | amountUnderflow
deriving DecidableEq

structure BdkWalletTransaction where
  tx : Transaction
  /-- When it was confirmed, or last seen in the mempool. -/
  timestamp : Option ℕ
  fee : ℕ
  received : ℕ
  sent : ℕ
deriving DecidableEq

namespace Wallet

section Model

variable (isMine : Script → Bool) (fetch : Txid → Except ListWalletTransactions Transaction)

def totalValue (txouts : List TxOut) : ℕ := (txouts.map TxOut.value).sum

/-- The value of the outputs that belong to the wallet. -/
def ownedValue (txouts : List TxOut) : ℕ :=
  totalValue (txouts.filter (fun out => isMine out.scriptPubkey))

def foreignValue (txouts : List TxOut) : ℕ :=
  totalValue (txouts.filter (fun out => !isMine out.scriptPubkey))

/-- The outputs that are spent. The input of a coinbase is skipped. -/
def prevTxouts : List TxIn → Except ListWalletTransactions (List TxOut)
  | [] => .ok []
  | input::rest => do
    if input.previousOutput.txid = allZeros then
      prevTxouts rest
    else
      let prevOutput ← fetch input.previousOutput.txid
      let prevTxout ← Fallible.require (prevOutput.output[input.previousOutput.vout]?)
        .indexOutOfBounds
      let txouts ← prevTxouts rest
      return prevTxout::txouts

def walletTransaction (tx : Transaction) (timestamp : Option ℕ) :
    Except ListWalletTransactions BdkWalletTransaction := do
  let txouts ← prevTxouts fetch tx.input
  let received := ownedValue isMine tx.output
  let sent := ownedValue isMine txouts
  let fee := (checkedSub (totalValue txouts) (totalValue tx.output)).getD 0
  if sent ≤ received then
    return ⟨tx,timestamp,fee,received-sent,0⟩
  else
    let net ← Fallible.require (checkedSub sent received) .amountUnderflow
    let net ← Fallible.require (checkedSub net fee) .amountUnderflow
    return ⟨tx,timestamp,fee,0,net⟩

variable [Bitcoin]

def walletTransactionSortKey (t : BdkWalletTransaction) : Option ℕ × List UInt8 :=
  (t.timestamp,hashBytes t.tx.computeTxid)

def inOrder (a b : BdkWalletTransaction) : Bool :=
  (compareLex (compareOn (fun t => (walletTransactionSortKey t).1))
    (compareOn (fun t => (walletTransactionSortKey t).2)) a b).isLE

def listWalletTransactions (transactions : List (Transaction × Option ℕ)) :
    Except ListWalletTransactions (List BdkWalletTransaction) := do
  let txs ← transactions.mapM (fun e => walletTransaction isMine fetch e.1 e.2)
  return txs.mergeSort inOrder

end Model

section Amounts

variable {isMine : Script → Bool} {fetch : Txid → Except ListWalletTransactions Transaction}
  {tx : Transaction} {timestamp : Option ℕ} {spent : List TxOut}

theorem ownedValue_add_foreignValue (isMine : Script → Bool) (txouts : List TxOut) :
    ownedValue isMine txouts+foreignValue isMine txouts = totalValue txouts := by
  have hperm := (List.filter_append_perm (fun out : TxOut => isMine out.scriptPubkey) txouts).map
    TxOut.value
  have hsum := hperm.sum_eq
  rwa [List.map_append,List.sum_append] at hsum

theorem prevTxouts_coinbase {inputs : List TxIn}
    (hc : ∀ input ∈ inputs, input.previousOutput.txid = allZeros) :
    prevTxouts fetch inputs = .ok [] := by
  induction inputs with
  | nil => rfl
  | cons input inputs ih =>
    rw [prevTxouts,if_pos (hc input (List.mem_cons_self ..))]
    exact ih (fun i hi => hc i (List.mem_cons_of_mem _ hi))

/-- The spent outputs are known, and worth at least the new ones unless it is a coinbase. -/
def Funded (fetch : Txid → Except ListWalletTransactions Transaction) (tx : Transaction)
    (spent : List TxOut) : Prop :=
  prevTxouts fetch tx.input = .ok spent ∧
    ((∀ input ∈ tx.input, input.previousOutput.txid = allZeros) ∨
      totalValue tx.output ≤ totalValue spent)

/-- The amounts add up to what the wallet gained or lost. -/
structure Consistent (isMine : Script → Bool) (spent : List TxOut) (t : BdkWalletTransaction) :
    Prop where
  oneWay : t.received = 0 ∨ t.sent = 0
  net : (t.received : ℤ)-t.sent = ownedValue isMine t.tx.output-ownedValue isMine spent+
    if ownedValue isMine t.tx.output < ownedValue isMine spent then (t.fee : ℤ) else 0

/-- The wallet loses, and others pay for a part of the fee. -/
def ForeignFee (isMine : Script → Bool) (tx : Transaction) (spent : List TxOut) : Prop :=
  ownedValue isMine tx.output < ownedValue isMine spent ∧
    foreignValue isMine tx.output < foreignValue isMine spent

/-- The amounts of a transaction are computed, and right, exactly if others pay no part of the fee of
what the wallet loses. -/
theorem walletTransaction_iff (hf : Funded fetch tx spent) :
    (∃ t, walletTransaction isMine fetch tx timestamp = .ok t ∧ t.tx = tx ∧
        Consistent isMine spent t) ↔ ¬ ForeignFee isMine tx spent := by
  obtain ⟨hread,hvalue⟩ := hf
  have hin := ownedValue_add_foreignValue isMine spent
  have hout := ownedValue_add_foreignValue isMine tx.output
  unfold walletTransaction ForeignFee
  rw [hread,Fallible.ok_bind]
  by_cases hgain : ownedValue isMine spent ≤ ownedValue isMine tx.output
  · simp only [hgain,if_true]
    refine iff_of_true ⟨_,rfl,rfl,.inr rfl,?_⟩ (by omega)
    simp only [Nat.not_lt.mpr hgain,if_false]
    omega
  · have hfunded : totalValue tx.output ≤ totalValue spent := by
      rcases hvalue with hc | hle
      · rw [prevTxouts_coinbase hc] at hread
        obtain rfl := Except.ok.inj hread
        exact absurd (Nat.zero_le _) hgain
      · exact hle
    have hfee : checkedSub (totalValue spent) (totalValue tx.output) =
        some (totalValue spent-totalValue tx.output) := checkedSub_some.mpr ⟨hfunded,rfl⟩
    have hnet : checkedSub (ownedValue isMine spent) (ownedValue isMine tx.output) =
        some (ownedValue isMine spent-ownedValue isMine tx.output) :=
      checkedSub_some.mpr ⟨by omega,rfl⟩
    simp only [hgain,if_false,hfee,hnet,Option.getD_some,Fallible.require_some,Fallible.ok_bind]
    by_cases hforeign : foreignValue isMine tx.output < foreignValue isMine spent
    · -- the fee is more than what the wallet lost
      have hnone : checkedSub (ownedValue isMine spent-ownedValue isMine tx.output)
          (totalValue spent-totalValue tx.output) = none := by
        rw [checkedSub,if_neg (by omega)]
      rw [hnone]
      refine iff_of_false ?_ (by omega)
      rintro ⟨t,ht,-⟩
      cases ht
    · have hsome : checkedSub (ownedValue isMine spent-ownedValue isMine tx.output)
          (totalValue spent-totalValue tx.output) =
            some (ownedValue isMine spent-ownedValue isMine tx.output-
              (totalValue spent-totalValue tx.output)) := checkedSub_some.mpr ⟨by omega,rfl⟩
      rw [hsome]
      refine iff_of_true ⟨_,rfl,rfl,.inl rfl,?_⟩ (by omega)
      simp only [Nat.not_le.mp hgain,if_true]
      omega

theorem walletTransaction_tx {t : BdkWalletTransaction}
    (ht : walletTransaction isMine fetch tx timestamp = .ok t) : t.tx = tx := by
  obtain ⟨txouts,-,ht⟩ := Fallible.bind_ok.mp ht
  simp only at ht
  split at ht
  · rw [Fallible.pure_ok] at ht
    rw [← ht]
  · obtain ⟨net,-,ht⟩ := Fallible.bind_ok.mp ht
    obtain ⟨net',-,ht⟩ := Fallible.bind_ok.mp ht
    rw [Fallible.pure_ok] at ht
    rw [← ht]

variable [Bitcoin] {transactions : List (Transaction × Option ℕ)}

/-- The transactions of the wallet are listed, with right amounts, exactly if in none of them others pay
for a part of the fee of what the wallet loses. -/
theorem listWalletTransactions_iff (isMine : Script → Bool) (spentOf : Transaction → List TxOut)
    (hf : ∀ e ∈ transactions, Funded fetch e.1 (spentOf e.1)) :
    (∃ l, listWalletTransactions isMine fetch transactions = .ok l ∧
        (l.map BdkWalletTransaction.tx).Perm (transactions.map Prod.fst) ∧
        ∀ t ∈ l, Consistent isMine (spentOf t.tx) t) ↔
      ∀ e ∈ transactions, ¬ ForeignFee isMine e.1 (spentOf e.1) := by
  constructor
  · rintro ⟨l,hl,-,hall⟩ e he
    obtain ⟨txs,htxs,hl⟩ := Fallible.bind_ok.mp hl
    rw [Fallible.pure_ok] at hl
    subst hl
    obtain ⟨t,ht,hte⟩ := Fallible.forall₂_left (Fallible.mapM_forall₂ htxs) he
    have htx := walletTransaction_tx hte
    have hconsistent := hall t (List.mem_mergeSort.mpr ht)
    rw [htx] at hconsistent
    exact (walletTransaction_iff (hf e he)).mp ⟨t,hte,htx,hconsistent⟩
  · intro hno
    have hone : ∀ e ∈ transactions, ∃ t, walletTransaction isMine fetch e.1 e.2 = .ok t ∧ t.tx = e.1 ∧
        Consistent isMine (spentOf e.1) t :=
      fun e he => (walletTransaction_iff (hf e he)).mpr (hno e he)
    obtain ⟨txs,htxs⟩ := Fallible.mapM_succeeds (fun e he => (hone e he).imp (fun t ht => ht.1))
    have hforall := Fallible.mapM_forall₂ htxs
    refine ⟨_,by rw [listWalletTransactions,htxs]; rfl,?_,fun t ht => ?_⟩
    · have hmap : txs.map BdkWalletTransaction.tx = transactions.map Prod.fst := by
        clear hone hno hf htxs
        induction hforall with
        | nil => rfl
        | cons ht _ ih => rw [List.map_cons,List.map_cons,walletTransaction_tx ht,ih]
      rw [← hmap]
      exact (List.mergeSort_perm _ _).map _
    · obtain ⟨e,he,hte⟩ := Fallible.forall₂_left hforall.flip (List.mem_mergeSort.mp ht)
      obtain ⟨t',ht',htx,hconsistent⟩ := hone e he
      obtain rfl := Except.ok.inj (hte.symm.trans ht')
      rwa [htx]

end Amounts

section Sample

open Sample

namespace HistorySample

def isMine (script : Script) : Bool := script = [0x51]

def earlier : Transaction := ⟨2,0,[⟨⟨1,0⟩,[],0⟩],[⟨100,[0x51]⟩,⟨100,[0x52]⟩]⟩

def later (foreign : ℕ) : Transaction :=
  ⟨2,0,[⟨⟨2,0⟩,[],0⟩,⟨⟨2,1⟩,[],0⟩],[⟨95,[0x51]⟩,⟨foreign,[0x52]⟩]⟩

def fetch (txid : Txid) : Except ListWalletTransactions Transaction :=
  if txid = 2 then .ok earlier else .error (.fetchTransaction txid)

def spent : List TxOut := earlier.output

end HistorySample

open HistorySample

theorem listWalletTransactions_iff_sample :
    ∃ l, listWalletTransactions isMine fetch [(later 100,some 7)] = .ok l ∧
      ∀ t ∈ l, Consistent isMine spent t := by
  have hf : ∀ e ∈ [(later 100,some 7)], Funded fetch e.1 spent := by
    intro e he
    rw [List.mem_singleton.mp he]
    exact ⟨by decide,.inr (by decide)⟩
  have hno : ∀ e ∈ [(later 100,some 7)], ¬ ForeignFee isMine e.1 spent := by
    rintro e he ⟨-,hforeign⟩
    rw [List.mem_singleton.mp he] at hforeign
    exact absurd hforeign (by decide)
  obtain ⟨l,hl,-,hall⟩ := (listWalletTransactions_iff isMine (fun _ => spent) hf).mpr hno
  exact ⟨l,hl,hall⟩

/-- When others pay three quarters of the fee, nothing is listed. -/
theorem foreign_fee_underflows :
    Funded fetch (later 85) spent ∧
      listWalletTransactions isMine fetch [(later 85,some 7)] = .error .amountUnderflow :=
  ⟨⟨by decide,.inr (by decide)⟩,by decide +kernel⟩

end Sample

end Wallet
end Bip300301Enforcer
