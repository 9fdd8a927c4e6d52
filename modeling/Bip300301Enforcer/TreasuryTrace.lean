import Bip300301Enforcer.ChainHistory
import Bip300301Enforcer.BlockSteps
import Mathlib.Algebra.Order.BigOperators.Group.List

/-! The trace that the transactions of a valid chain leave in the treasury index: every
ctip that there has been, each under the transaction that made it. -/
namespace Bip300301Enforcer
open Lib Chain BlockHandler ActiveSidechainDbs

section Trace

variable [Bitcoin]

/-- What is known of a transaction of a valid chain. -/
structure ReadOk (h : BlockHandler) (st : ReadTx) : Prop where
  done : ∃ infos res, TxDone h st.before st.tx st.after infos res
  tables : st.before.dbs.Tables
  indexed : st.before.dbs.Indexed
  /-- The ctip that it spends is the current one. -/
  current : ∀ s cc, cc ∈ st.before.dbs.consolidatedInputs s st.tx.input →
    st.before.dbs.ctip.get? s = some cc
  /-- There is no empty deposit. -/
  positive : ∀ o s v, st.before.unconsolidatedCtips.byOutpoint.get? o = some (s,v) → 0 < v

/-- The index after the listed transactions. Their txids and those of what they spend are
among the `used` ones. -/
structure Traced (h : BlockHandler) (used : Txid → Prop) (reads : List ReadTx)
    (dbs : ActiveSidechainDbs) : Prop where
  ok : ∀ st ∈ reads, ReadOk h st
  kept : ∀ st ∈ reads, ∀ o e, st.before.dbs.ctipOutpointToValueSeq.get? o = some e →
    dbs.ctipOutpointToValueSeq.get? o = some e
  stored : ∀ st ∈ reads, ∀ s info, st.info h s = some info →
    isNewCtip st.before.dbs s info = true →
    dbs.ctipOutpointToValueSeq.get? info.ctipOutput.outpoint =
      some (s,info.ctipOutput.value,st.before.dbs.count s)
  origin : ∀ o s v n, dbs.ctipOutpointToValueSeq.get? o = some (s,v,n) → ∃ st ∈ reads, ∃ info,
    st.info h s = some info ∧ isNewCtip st.before.dbs s info = true ∧ info.ctipOutput = ⟨o,v⟩
  made : ∀ st ∈ reads, used st.tx.computeTxid
  unique : ∀ st ∈ reads, ∀ st' ∈ reads, st.tx.computeTxid = st'.tx.computeTxid → st = st'
  used : ∀ st ∈ reads, ∀ o ∈ st.tx.spent, used o.txid
  /-- What has been spent does not become a ctip. -/
  spent : ∀ st ∈ reads, ∀ o ∈ st.tx.spent, ∀ e, dbs.ctipOutpointToValueSeq.get? o = some e →
    st.before.dbs.ctipOutpointToValueSeq.get? o = some e

variable {h : BlockHandler} {c : Chain} {t : ConsensusDbs} {b : Block} {coinbase : Transaction}
  {txs : List Transaction} {res : ProcessedBlock} {D : BlockHash → Option Diff.Block}
  {E : BlockHash → Option (List BlockEvent)} {reads : List ReadTx} {st : ReadTx}
  {used used' : Txid → Prop} {dbs dbs' : ActiveSidechainDbs}

theorem Traced.mono (ht : Traced h used reads dbs) (hu : ∀ x, used x → used' x)
    (hi : dbs'.ctipOutpointToValueSeq = dbs.ctipOutpointToValueSeq) : Traced h used' reads dbs' := by
  refine ⟨ht.ok,?_,?_,?_,fun st hst => hu _ (ht.made st hst),ht.unique,
    fun st hst o ho => hu _ (ht.used st hst o ho),?_⟩
  · rw [hi]; exact ht.kept
  · rw [hi]; exact ht.stored
  · rw [hi]; exact ht.origin
  · rw [hi]; exact ht.spent

/-- One more transaction. -/
theorem Traced.step (ht : Traced h used reads st.before.dbs) (hok : ReadOk h st)
    (hnew : ¬ used st.tx.computeTxid) (hin : ∀ o ∈ st.tx.spent, used o.txid)
    (hfresh : ∀ o : OutPoint, o.txid = st.tx.computeTxid →
      st.before.dbs.ctipOutpointToValueSeq.get? o = none) :
    Traced h (fun x => used x ∨ x = st.tx.computeTxid) (reads++[st]) st.after.dbs := by
  obtain ⟨infos,r,hd⟩ := hok.done
  have hmem : ∀ x, x ∈ reads++[st] ↔ x ∈ reads ∨ x = st := by simp
  have hkeep : ∀ o e, st.before.dbs.ctipOutpointToValueSeq.get? o = some e →
      st.after.dbs.ctipOutpointToValueSeq.get? o = some e := by
    rintro o ⟨s,v,n⟩ he
    exact (txDone_index hd hfresh).mpr (.inl he)
  have hback : ∀ o, used o.txid → ∀ e, st.after.dbs.ctipOutpointToValueSeq.get? o = some e →
      st.before.dbs.ctipOutpointToValueSeq.get? o = some e := by
    rintro o ho ⟨s,v,n⟩ he
    rcases (txDone_index hd hfresh).mp he with he | ⟨hc,-⟩
    · exact he
    · rw [← newCtip_txid hd hc] at hnew
      exact absurd ho hnew
  constructor
  · intro x hx
    rcases (hmem x).mp hx with hx | rfl
    · exact ht.ok x hx
    · exact hok
  · intro x hx o e he
    rcases (hmem x).mp hx with hx | rfl
    · exact hkeep o e (ht.kept x hx o e he)
    · exact hkeep o e he
  · intro x hx s info hi hn
    rcases (hmem x).mp hx with hx | rfl
    · exact hkeep _ _ (ht.stored x hx s info hi hn)
    · refine (txDone_index hd hfresh).mpr (.inr ⟨?_,rfl⟩)
      have hi' : slotInfo h x.before.dbs x.before.unconsolidatedCtips x.tx s = some info := hi
      rw [newCtips_get? hd,hi',Option.bind_some,newCtipOf,if_pos hn]
  · intro o s v n he
    rcases (txDone_index hd hfresh).mp he with he | ⟨hc,-⟩
    · obtain ⟨x,hx,hinfo⟩ := ht.origin o s v n he
      exact ⟨x,(hmem x).mpr (.inl hx),hinfo⟩
    · obtain ⟨info,hi,hn,hco⟩ := newCtip_info hd hc
      exact ⟨st,(hmem st).mpr (.inr rfl),info,hi,hn,hco.symm⟩
  · intro x hx
    rcases (hmem x).mp hx with hx | rfl
    · exact .inl (ht.made x hx)
    · exact .inr rfl
  · intro x hx y hy he
    rcases (hmem x).mp hx with hx' | hx'
    · rcases (hmem y).mp hy with hy' | hy'
      · exact ht.unique x hx' y hy' he
      · rw [hy'] at he
        exact absurd (he ▸ ht.made x hx') hnew
    · rcases (hmem y).mp hy with hy' | hy'
      · rw [hx'] at he
        exact absurd (he ▸ ht.made y hy') hnew
      · rw [hx',hy']
  · intro x hx o ho
    rcases (hmem x).mp hx with hx | rfl
    · exact .inl (ht.used x hx o ho)
    · exact .inl (hin o ho)
  · intro x hx o ho e he
    rcases (hmem x).mp hx with hx | rfl
    · exact ht.spent x hx o ho e (hback o (ht.used x hx o ho) e he)
    · exact hback o (hin o ho) e he

end Trace

end Bip300301Enforcer
