import Bip300301Enforcer.Chain
import Bip300301Enforcer.Lib.Ledger

/-! The unspent outputs of a chain, and what Bitcoin's own rules say about the
blocks that the enforcer is given. -/
namespace Bip300301Enforcer
open Lib Chain

abbrev Utxos := Ledger OutPoint TxOut

section Utxo

variable [Bitcoin]

namespace Transaction

def outpoint (tx : Transaction) (vout : ℕ) : OutPoint := ⟨tx.computeTxid,vout⟩

/-- The outputs of a transaction under their outpoints. -/
def created (tx : Transaction) : List (OutPoint × TxOut) :=
  tx.output.zipIdx.map (fun e => (tx.outpoint e.2,e.1))

def spent (tx : Transaction) : List OutPoint := tx.input.map TxIn.previousOutput

theorem nodup_created (tx : Transaction) : (tx.created.map Prod.fst).Nodup := by
  have hmap : tx.created.map Prod.fst = (List.range' 0 tx.output.length).map tx.outpoint := by
    rw [← List.zipIdx_map_snd,created,List.map_map,List.map_map]
    rfl
  rw [hmap]
  refine List.Nodup.map ?_ List.nodup_range'
  intro a b hab
  exact congrArg OutPoint.vout hab

end Transaction

namespace Utxos

def add (L : Utxos) (tx : Transaction) : Utxos := Ledger.create L tx.created

/-- A transaction spends outputs that are there, each once, and creates its own. -/
def applyTx (L : Utxos) (tx : Transaction) : Option Utxos :=
  (Ledger.spend L tx.spent).map (fun L => add L tx)

/-- The outputs of a coinbase count from the start of its block on. -/
def applyBlock (L : Utxos) (b : Block) : Option Utxos :=
  match b.txdata with
  | [] => none
  | coinbase::txs => txs.foldlM applyTx (add L coinbase)

theorem get?_add (L : Utxos) (tx : Transaction) (o : OutPoint) :
    (add L tx).get? o = if o.txid = tx.computeTxid then
      (tx.output[o.vout]?).or (L.get? o) else L.get? o := by
  rw [add,Ledger.get?_create (Transaction.nodup_created tx)]
  cases hf : tx.created.find? (fun e => e.1 = o) with
  | some e =>
    have ho : e.1 = o := by simpa using List.find?_some hf
    obtain ⟨⟨out,n⟩,hz,rfl⟩ := List.mem_map.mp (List.mem_of_find?_eq_some hf)
    subst ho
    have hn : tx.output[n]? = some out := by simpa [List.mem_zipIdx_iff_getElem?] using hz
    simp [Transaction.outpoint,hn]
  | none =>
    by_cases ht : o.txid = tx.computeTxid
    · rw [if_pos ht]
      cases hn : tx.output[o.vout]? with
      | none => simp
      | some out =>
        have hmem : (o,out) ∈ tx.created := by
          refine List.mem_map.mpr ⟨(out,o.vout),by simpa [List.mem_zipIdx_iff_getElem?] using hn,?_⟩
          obtain ⟨t,v⟩ := o
          simp only at ht
          simp [Transaction.outpoint,ht]
        simpa using List.find?_eq_none.mp hf _ hmem
    · rw [if_neg ht]

theorem applyTx_some {L L' : Utxos} {tx : Transaction} (h : applyTx L tx = some L') :
    tx.spent.Nodup ∧ (∀ o ∈ tx.spent, ∃ out, L.get? o = some out) ∧
      ∀ o, L'.get? o = if o.txid = tx.computeTxid then
        (tx.output[o.vout]?).or (if o ∈ tx.spent then none else L.get? o)
        else if o ∈ tx.spent then none else L.get? o := by
  obtain ⟨L₁,h₁,rfl⟩ := Option.map_eq_some_iff.mp h
  obtain ⟨hn,hin,hget⟩ := Ledger.spend_some h₁
  refine ⟨hn,fun o ho => (FinMap.contains_iff _ _).mp (hin o ho),fun o => ?_⟩
  rw [get?_add,hget]

end Utxos

namespace Chain

def allTxids (c : Chain) : List Txid := c.flatMap (fun b => b.txdata.map Transaction.computeTxid)

/-- The unspent outputs of a chain, if all of its blocks follow Bitcoin's rules. -/
def utxos : Chain → Option Utxos
  | [] => some .empty
  | b::c => (utxos c).bind (fun L => L.applyBlock b)

end Chain

/-- The txids of a block's transactions are new. Only coinbases may repeat each
other, as the first ones of the chain did. -/
structure NewTxids (c : Chain) (b : Block) : Prop where
  nodup : b.newTxids.Nodup
  new : ∀ t ∈ b.newTxids, t ∉ c.allTxids ∧ some t ≠ b.txdata.head?.map Transaction.computeTxid
  coinbase : ∀ coinbase, b.txdata.head? = some coinbase → coinbase.computeTxid ∉ c.txids

/-- A block is valid under Bitcoin's rules: no output is spent twice, each input
spends an output that exists, and no transaction appears twice. -/
structure UtxoValid (c : Chain) (b : Block) : Prop where
  txids : NewTxids c b
  spends : ∃ L, Chain.utxos (b::c) = some L

instance (c : Chain) (b : Block) : Decidable (NewTxids c b) :=
  decidable_of_iff (b.newTxids.Nodup ∧
    b.newTxids.all (fun t => t ∉ c.allTxids ∧
      some t ≠ b.txdata.head?.map Transaction.computeTxid) = true ∧
    ∀ coinbase ∈ b.txdata.head?, coinbase.computeTxid ∉ c.txids)
    ⟨fun ⟨h₁,h₂,h₃⟩ => ⟨h₁,fun t ht => of_decide_eq_true (List.all_eq_true.mp h₂ t ht),h₃⟩,
      fun ⟨h₁,h₂,h₃⟩ => ⟨h₁,List.all_eq_true.mpr (fun t ht => decide_eq_true (h₂ t ht)),h₃⟩⟩

instance (c : Chain) (b : Block) : Decidable (UtxoValid c b) :=
  decidable_of_iff (NewTxids c b ∧ (Chain.utxos (b::c)).isSome = true)
    ⟨fun ⟨h₁,h₂⟩ => ⟨h₁,Option.isSome_iff_exists.mp h₂⟩,
      fun ⟨h₁,h₂⟩ => ⟨h₁,Option.isSome_iff_exists.mpr h₂⟩⟩

theorem txids_subset_allTxids (c : Chain) {t : Txid} (h : t ∈ c.txids) : t ∈ c.allTxids := by
  obtain ⟨b,hb,ht⟩ := List.mem_flatMap.mp h
  refine List.mem_flatMap.mpr ⟨b,hb,?_⟩
  obtain ⟨tx,htx,rfl⟩ := List.mem_map.mp ht
  exact List.mem_map.mpr ⟨tx,List.mem_of_mem_tail htx,rfl⟩

theorem fresh_utxoValid : Fresh UtxoValid := by
  intro c b hv
  refine ⟨hv.txids.nodup,fun tx htx ht => ?_⟩
  have hmem : tx.computeTxid ∈ b.newTxids := List.mem_map.mpr ⟨tx,htx,rfl⟩
  exact (hv.txids.new _ hmem).1 (txids_subset_allTxids c ht)

end Utxo
end Bip300301Enforcer
