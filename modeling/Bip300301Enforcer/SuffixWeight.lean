import Bip300301Enforcer.ProducedMessages
import Bip300301Enforcer.SuffixTxs

/-! The weight of the end of a block. It is reserved before the rest of the block is known:
by the withdrawals from treasuries of all the money there can be, and by the weight that
every deposit adds. -/
namespace Bip300301Enforcer
open Lib

section Sizes

theorem varIntSize_le (n : ℕ) : varIntSize n ≤ 9 := by
  unfold varIntSize
  split_ifs <;> omega

theorem varIntSize_le_five {n : ℕ} (h : n < 2^32) : varIntSize n ≤ 5 := by
  unfold varIntSize
  split_ifs <;> omega

theorem TxIn.size_spending (o : OutPoint) : (TxIn.spending o).size = 41 := rfl

theorem TxOut.size_treasury (op : OpDrivechain) (s : SidechainNumber) (value : ℕ) :
    (⟨value,op.script s⟩ : TxOut).size = 13 := rfl

theorem sum_size_spending (l : List Ctip) :
    ((l.map (fun ctip => TxIn.spending ctip.outpoint)).map TxIn.size).sum = 41*l.length := by
  induction l with
  | nil => rfl
  | cons c l ih =>
    rw [List.map_cons,List.map_cons,List.sum_cons,ih,TxIn.size_spending,List.length_cons]
    omega

end Sizes

namespace BlindedM6

/-- The weight of a withdrawal of the bundle with one input. -/
def m6Weight (m : BlindedM6) : ℕ :=
  4*(4+1+41+varIntSize (m.tx.output.tail.length+1)+(13+(m.tx.output.tail.map TxOut.size).sum)+4)

theorem weight_m6Tx (m : BlindedM6) (op : OpDrivechain) (s : SidechainNumber) (inputs : List Ctip) :
    (m.m6Tx op s inputs).weight = 4*(4+varIntSize inputs.length+41*inputs.length+
      varIntSize (m.tx.output.tail.length+1)+(13+(m.tx.output.tail.map TxOut.size).sum)+4) := by
  have hsum : (List.map TxOut.size (⟨(inputs.map Ctip.value).sum-m.demand,op.script s⟩::
      m.tx.output.tail)).sum = 13+(m.tx.output.tail.map TxOut.size).sum := by
    rw [List.map_cons,List.sum_cons,TxOut.size_treasury]
  simp only [Transaction.weight,Transaction.baseSize,m6Tx,sum_size_spending,hsum,List.length_map,
    List.length_cons]

theorem weight_m6Tx_singleton (m : BlindedM6) (op : OpDrivechain) (s : SidechainNumber) (c : Ctip) :
    (m.m6Tx op s [c]).weight = m.m6Weight := weight_m6Tx m op s [c]

theorem weight_m6Tx_le (m : BlindedM6) (op : OpDrivechain) (s : SidechainNumber) (c : Ctip)
    (u : List Ctip) : (m.m6Tx op s (c::u)).weight ≤ m.m6Weight+380*u.length := by
  have hcount : varIntSize (u.length+1) ≤ 1+54*u.length := by
    cases hu : u.length with
    | zero => decide
    | succ k =>
      have := varIntSize_le (k+1+1)
      omega
  rw [weight_m6Tx,m6Weight,List.length_cons]
  omega

end BlindedM6

namespace UnconsolidatedCtips

/-- The number of treasury outputs that are not consolidated. -/
def total (u : UnconsolidatedCtips) : ℕ := u.bySidechain.sumBy (fun _ l => l.length)

theorem total_removeSidechain (u : UnconsolidatedCtips) (s : SidechainNumber) :
    u.total = ((u.getBySidechain s).getD []).length+(u.removeSidechain s).2.total := by
  cases hs : u.bySidechain.get? s with
  | some l =>
    have hsum := FinMap.sumBy_erase (fun _ l => l.length) hs
    simpa [total,removeSidechain,getBySidechain,hs] using hsum
  | none =>
    have herase : u.bySidechain.erase s = u.bySidechain := by
      apply FinMap.ext
      intro a
      rw [FinMap.get?_erase]
      split
      · rename_i ha
        rw [← ha,hs]
      · rfl
    simp [total,removeSidechain,getBySidechain,hs,herase]

end UnconsolidatedCtips

namespace BlockProducer

section Payments

variable [Bitcoin]

/-- The withdrawals of a slot weigh no more than the bundles that its treasury suffices
for, and less than what the deposits that they spend have reserved. -/
theorem Pays.weight_le {op : OpDrivechain} {s : SidechainNumber} {l : List BlindedM6}
    {ctips ctips' : Ctips} {txs : List Transaction} (h : Pays op s l ctips txs ctips') {limit : ℕ}
    (hlimit : ctips.treasury s ≤ limit) :
    (txs.map Transaction.weight).sum+380*ctips'.unconsolidated.total ≤
      ((l.filter (fun m => m.demand ≤ limit)).map BlindedM6.m6Weight).sum+
        380*ctips.unconsolidated.total := by
  induction h with
  | done => exact Nat.le_refl _
  | noTreasury missing => simp
  | @skipped m rest ctips ctips' c txs ctip amount exceeds others ih =>
    have := ih hlimit
    rw [List.filter_cons]
    split
    · rw [List.map_cons,List.sum_cons]
      omega
    · exact this
  | @paid m rest ctips ctips' c txs ctip amount enough others ih =>
    have htreasury := Ctips.treasury_of_ctip ctip
    have hm : m.demand ≤ limit := by omega
    have hafter := Ctips.treasury_afterM6_le ctip op m s
    have hrest := ih (by omega)
    have hweight := m.weight_m6Tx_le op s c (ctips.unconsolidatedOf s)
    have htotal : ctips.unconsolidated.total = (ctips.unconsolidatedOf s).length+
        (ctips.afterM6 op s (c::ctips.unconsolidatedOf s) m).unconsolidated.total :=
      ctips.unconsolidated.total_removeSidechain s
    simp only [List.filter_cons,hm,decide_true,if_true,List.map_cons,List.sum_cons]
    omega

/-- A treasury without deposits pays all the bundles that it could pay at once. -/
theorem pays_all (op : OpDrivechain) {s : SidechainNumber} {limit : ℕ} (hlimit : limit < 2^64)
    (l : List BlindedM6) (ctips : Ctips) (c : Ctip) (hu : ctips.unconsolidated = .default)
    (hc : ctips.consolidated.get? s = some c) (hvalue : c.value ≤ limit)
    (hsum : ((l.filter (fun m => m.demand ≤ limit)).map BlindedM6.demand).sum ≤ c.value) :
    ∃ txs ctips', Pays op s l ctips txs ctips' ∧ ctips'.unconsolidated = .default ∧
      (txs.map Transaction.weight).sum =
        ((l.filter (fun m => m.demand ≤ limit)).map BlindedM6.m6Weight).sum := by
  induction l generalizing ctips c with
  | nil => exact ⟨[],ctips,.done,hu,rfl⟩
  | cons m l ih =>
    have hof : ctips.unconsolidatedOf s = [] := by
      rw [Ctips.unconsolidatedOf,hu]
      rfl
    have htotal : ((c::ctips.unconsolidatedOf s).map Ctip.value).sum = c.value := by
      rw [hof]
      simp
    by_cases hm : m.demand ≤ limit
    · simp only [List.filter_cons,hm,decide_true,if_true,List.map_cons,List.sum_cons] at hsum ⊢
      have hget : (ctips.afterM6 op s (c::ctips.unconsolidatedOf s) m).consolidated.get? s =
          some ⟨⟨(m.m6Tx op s (c::ctips.unconsolidatedOf s)).computeTxid,0⟩,c.value-m.demand⟩ := by
        rw [Ctips.afterM6,FinMap.get?_insert_self,htotal]
      have hu' : (ctips.afterM6 op s (c::ctips.unconsolidatedOf s) m).unconsolidated = .default := by
        rw [Ctips.afterM6,hu]
        exact UnconsolidatedCtips.removeSidechain_default s
      obtain ⟨txs,ctips',hp,hd,hw⟩ := ih _ _ hu' hget (by simp only; omega) (by simp only; omega)
      refine ⟨_,ctips',.paid hc (by omega) (by omega) hp,hd,?_⟩
      rw [List.map_cons,List.sum_cons,hw,hof,BlindedM6.weight_m6Tx_singleton]
    · simp only [List.filter_cons,hm,decide_false,Bool.false_eq_true,if_false] at hsum ⊢
      obtain ⟨txs,ctips',hp,hd,hw⟩ := ih ctips c hu hc hvalue hsum
      exact ⟨txs,ctips',.skipped hc (by omega) (by omega) hp,hd,hw⟩

def bundlesWeight (threshold : UInt16) (limit : SidechainNumber → ℕ)
    (l : List (SidechainNumber × BundleProposals)) : ℕ :=
  (l.map (fun e =>
    (((approved threshold e.2).filter (fun m => m.demand ≤ limit e.1)).map BlindedM6.m6Weight).sum)).sum

omit [Bitcoin] in
theorem bundlesWeight_cons (threshold : UInt16) (limit : SidechainNumber → ℕ)
    (e : SidechainNumber × BundleProposals) (l : List (SidechainNumber × BundleProposals)) :
    bundlesWeight threshold limit (e::l) =
      (((approved threshold e.2).filter (fun m => m.demand ≤ limit e.1)).map BlindedM6.m6Weight).sum+
        bundlesWeight threshold limit l := rfl

theorem PaysAll.weight_le {op : OpDrivechain} {threshold : UInt16}
    {l : List (SidechainNumber × BundleProposals)} {ctips ctips' : Ctips} {txs : List Transaction}
    (h : PaysAll op threshold l ctips txs ctips') (limit : SidechainNumber → ℕ)
    (hlimit : ∀ s, ctips.treasury s ≤ limit s) :
    (txs.map Transaction.weight).sum+380*ctips'.unconsolidated.total ≤
      bundlesWeight threshold limit l+380*ctips.unconsolidated.total := by
  induction h with
  | nil => simp
  | cons slot others ih =>
    have hslot := slot.weight_le (hlimit _)
    have hrest := ih (fun s => (slot.treasury_le s).trans (hlimit s))
    rw [bundlesWeight_cons,List.map_append,List.sum_append]
    dsimp only
    omega

/-- Treasuries without deposits pay all the bundles that they could pay at once. -/
theorem paysAll_all (op : OpDrivechain) (threshold : UInt16) {limit : ℕ} (hlimit : limit < 2^64)
    (l : List (SidechainNumber × BundleProposals)) (hl : (l.map Prod.fst).Nodup) (ctips : Ctips)
    (hu : ctips.unconsolidated = .default)
    (hslots : ∀ e ∈ l, ∃ c, ctips.consolidated.get? e.1 = some c ∧ c.value = limit ∧
      (((approved threshold e.2).filter (fun m => m.demand ≤ limit)).map BlindedM6.demand).sum ≤ limit) :
    ∃ txs ctips', PaysAll op threshold l ctips txs ctips' ∧ ctips'.unconsolidated = .default ∧
      (txs.map Transaction.weight).sum = bundlesWeight threshold (fun _ => limit) l := by
  induction l generalizing ctips with
  | nil => exact ⟨[],ctips,.nil,hu,rfl⟩
  | cons e l ih =>
    rw [List.map_cons,List.nodup_cons] at hl
    obtain ⟨c,hc,hvalue,hsum⟩ := hslots e (List.mem_cons_self ..)
    obtain ⟨txs,ctips₁,hp,hu₁,hw⟩ := pays_all op hlimit (approved threshold e.2) ctips c
      hu hc (by omega) (by omega)
    have hrest : ∀ e' ∈ l, ∃ c, ctips₁.consolidated.get? e'.1 = some c ∧ c.value = limit ∧
        (((approved threshold e'.2).filter (fun m => m.demand ≤ limit)).map BlindedM6.demand).sum ≤
          limit := by
      intro e' he'
      have hne : e.1 ≠ e'.1 := by
        intro heq
        exact hl.1 (List.mem_map.mpr ⟨e',he',heq.symm⟩)
      rw [hp.consolidated_ne hne]
      exact hslots e' (List.mem_cons_of_mem _ he')
    obtain ⟨txs',ctips',hps,hu',hw'⟩ := ih hl.2 ctips₁ hu₁ hrest
    refine ⟨txs++txs',ctips',.cons hp hps,hu',?_⟩
    rw [bundlesWeight_cons,List.map_append,List.sum_append,hw,hw']

end Payments

section Consolidation

structure Consolidates (tx : Transaction) (inputs outputs : ℕ) : Prop where
  input : tx.input.length = inputs
  inputSize : (tx.input.map TxIn.size).sum = 41*inputs
  output : tx.output.length = outputs
  outputSize : (tx.output.map TxOut.size).sum = 13*outputs

theorem foldlM_consolidateSlot_eq {op : OpDrivechain} {consolidated : FinMap SidechainNumber Ctip}
    {l : List (SidechainNumber × List Ctip)} {tx : Transaction}
    (h : l.foldlM (consolidateSlot op consolidated) ⟨2,0,[],[]⟩ = .ok tx) :
    tx.input = spendAll (l.flatMap (fun e => (consolidated.get? e.1).toList++e.2)) ∧
      tx.output = l.map (fun e =>
        ⟨(((consolidated.get? e.1).toList++e.2).map Ctip.value).sum,op.script e.1⟩) := by
  refine Fallible.foldlM_prefix (fun done tx =>
    tx.input = spendAll (done.flatMap (fun e => (consolidated.get? e.1).toList++e.2)) ∧
      tx.output = done.map (fun e =>
        ⟨(((consolidated.get? e.1).toList++e.2).map Ctip.value).sum,op.script e.1⟩)) h ⟨rfl,rfl⟩ ?_
  rintro done e rest tx tx' - ⟨hin,hout⟩ hstep
  obtain ⟨value,hvalue,hstep⟩ := Fallible.bind_ok.mp hstep
  rw [Fallible.require_ok,checkedSum_some] at hvalue
  rw [Fallible.pure_ok] at hstep
  subst hstep
  constructor
  · rw [hin]
    simp only [spendAll,List.flatMap_append,List.map_append,List.flatMap_cons,List.flatMap_nil,
      List.append_nil]
  · change tx.output++[op.createM5DepositOutput e.1 value] = _
    rw [hout,List.map_append,List.map_singleton,hvalue.1]
    rfl

theorem foldlM_consolidateSlot {op : OpDrivechain} {consolidated : FinMap SidechainNumber Ctip}
    {l : List (SidechainNumber × List Ctip)} {tx : Transaction}
    (h : l.foldlM (consolidateSlot op consolidated) ⟨2,0,[],[]⟩ = .ok tx) :
    ∃ n ≤ (l.map (fun e => e.2.length)).sum+l.length, Consolidates tx n l.length := by
  obtain ⟨hin,hout⟩ := foldlM_consolidateSlot_eq h
  refine ⟨(l.flatMap (fun e => (consolidated.get? e.1).toList++e.2)).length,?_,?_,?_,?_,?_⟩
  · clear h hin hout
    induction l with
    | nil => exact Nat.le_refl 0
    | cons e l ih =>
      have hone : (consolidated.get? e.1).toList.length ≤ 1 := by
        cases consolidated.get? e.1 <;> simp
      simp only [List.flatMap_cons,List.length_append,List.map_cons,List.sum_cons,List.length_cons]
      omega
  · rw [hin,spendAll,List.length_map]
  · rw [hin,spendAll,sum_size_spending]
  · rw [hout,List.length_map]
  · rw [hout,List.map_map]
    simp [Function.comp_def,TxOut.size_treasury,Nat.mul_comm]

theorem length_toList_le {V : Type} (m : FinMap SidechainNumber V) : m.toList.length ≤ 256 := by
  have hnodup : (m.keys.map UInt8.toNat).Nodup :=
    (FinMap.nodup_keys m).map (fun a b hab => UInt8.toNat_inj.mp hab)
  have hsub : m.keys.map UInt8.toNat ⊆ List.range 256 := by
    intro n hn
    obtain ⟨s,-,rfl⟩ := List.mem_map.mp hn
    exact List.mem_range.mpr s.toNat_lt
  have hlen := (List.subperm_of_subset hnodup hsub).length_le
  simpa [FinMap.keys] using hlen

/-- The consolidation weighs no more than what one transaction with all the deposits would
reserve. -/
theorem consolidation_weight_le {op : OpDrivechain} {consolidated : FinMap SidechainNumber Ctip}
    {u : UnconsolidatedCtips} {order : VisitOrder} {tx : Transaction}
    (hne : ∀ s l, u.bySidechain.get? s = some l → l ≠ [])
    (h : (order.ctips u.bySidechain.toList).foldlM (consolidateSlot op consolidated) ⟨2,0,[],[]⟩ =
      .ok tx) : tx.weight ≤ 72+380*u.total := by
  obtain ⟨n,hn,hc⟩ := foldlM_consolidateSlot h
  have hperm := order.ctips_perm u.bySidechain.toList
  have hlen : (order.ctips u.bySidechain.toList).length = u.bySidechain.toList.length :=
    hperm.length_eq
  have htotal : ((order.ctips u.bySidechain.toList).map (fun e => e.2.length)).sum = u.total :=
    (hperm.map _).sum_eq
  have hslots := length_toList_le u.bySidechain
  have hpos : u.bySidechain.toList.length ≤ u.total := by
    have hcard := List.length_le_sum_of_one_le (u.bySidechain.toList.map (fun e => e.2.length)) (by
      intro k hk
      obtain ⟨e,he,rfl⟩ := List.mem_map.mp hk
      exact List.length_pos_iff.mpr (hne e.1 e.2 (FinMap.mem_toList.mp he)))
    rwa [List.length_map] at hcard
  have hcounts := varIntSize_le n
  have hout : varIntSize u.bySidechain.toList.length ≤ 5 := varIntSize_le_five (by omega)
  rw [hlen,htotal] at hn
  rw [hlen] at hc
  rw [Transaction.weight,Transaction.baseSize,hc.input,hc.inputSize,hc.output,hc.outputSize]
  by_cases hbig : n < 2^32
  · have := varIntSize_le_five hbig
    omega
  · omega

end Consolidation

end BlockProducer
end Bip300301Enforcer
