import Bip300301Enforcer.BlockSteps

/-! How much of each treasury a transaction spends, read off the unspent outputs,
and that the code computes exactly this. -/
namespace Bip300301Enforcer
open Lib Chain BlockHandler ActiveSidechainDbs

variable [Bitcoin]

namespace TxStep

variable (op : OpDrivechain) (st : TxStep) (s : SidechainNumber)

/-- A treasury output of a slot is its ctip, or an output for the slot that an
earlier transaction of the block made. -/
def IsTreasury (o : OutPoint) (out : TxOut) : Prop :=
  (st.before.dbs.ctip.get? s).map Ctip.outpoint = some o ∨
    (st.before.dbs.sidechain.contains s = true ∧ o.txid ∈ st.done.map Transaction.computeTxid ∧
      op.parse out.scriptPubkey = some s)

instance (o : OutPoint) (out : TxOut) : Decidable (st.IsTreasury op s o out) :=
  inferInstanceAs (Decidable (_ ∨ _))

/-- The value of an outpoint that is an unspent treasury output of a slot. -/
def treasuryOutput? (o : OutPoint) : Option ℕ :=
  (st.utxos.get? o).bind (fun out => if st.IsTreasury op s o out then some out.value else none)

/-- The values of the treasury outputs of a slot that the transaction spends. -/
def spentOf : List ℕ := st.tx.spent.filterMap (st.treasuryOutput? op s)

def createdOf : List (TxOut × ℕ) := op.slotOutputs st.tx.output.zipIdx s

/-- What the transaction spends of a slot's treasury. -/
def valueIn : ℕ := (st.spentOf op s).sum

/-- What the transaction pays into a slot's treasury. -/
def valueOut : ℕ := ((st.createdOf op s).map (fun e => e.1.value)).sum

end TxStep

section Sums

omit [Bitcoin] in
theorem sum_filterMap_or {α β : Type} (A B : α → Option β) (val : β → ℕ) (l : List α)
    (hex : ∀ a ∈ l, ∀ x, A a = some x → B a = none) :
    (l.filterMap (fun a => ((A a).or (B a)).map val)).sum =
      ((l.filterMap A).map val).sum+((l.filterMap B).map val).sum := by
  induction l with
  | nil => rfl
  | cons a l ih =>
    have ih := ih (fun a ha => hex a (List.mem_cons_of_mem _ ha))
    have ha := hex a (List.mem_cons_self ..)
    cases hA : A a with
    | some x =>
      have hB := ha x hA
      simp only [List.filterMap_cons,hA,hB,Option.some_or,Option.map_some,List.sum_cons,
        List.map_cons,ih]
      omega
    | none =>
      cases hB : B a with
      | none => simpa [List.filterMap_cons,hA,hB] using ih
      | some y =>
        simp only [List.filterMap_cons,hA,hB,Option.none_or,Option.map_some,List.sum_cons,
          List.map_cons,ih]
        omega

omit [Bitcoin] in
theorem head?_getD_eq_sum {l : List Ctip} (h : l.length ≤ 1) :
    (l.head?.map Ctip.value).getD 0 = (l.map Ctip.value).sum := by
  match l with
  | [] => rfl
  | [c] => simp
  | a::b::l => simp at h

omit [Bitcoin] in
theorem unconsolidatedInputs_sublist (dbs : ActiveSidechainDbs) (u : UnconsolidatedCtips)
    (s : SidechainNumber) (l : List TxIn) :
    ((dbs.unconsolidatedInputs u s l).map Ctip.outpoint).Sublist (l.map TxIn.previousOutput) := by
  induction l with
  | nil => exact .slnil
  | cons i l ih =>
    have hcons : dbs.unconsolidatedInputs u s (i::l) =
        (dbs.unconsolidatedInput u s i).toList++dbs.unconsolidatedInputs u s l := by
      unfold unconsolidatedInputs
      cases hi : dbs.unconsolidatedInput u s i <;> simp [hi]
    rw [hcons]
    cases hi : dbs.unconsolidatedInput u s i with
    | none => exact ih.cons _
    | some c =>
      have ho : c.outpoint = i.previousOutput := by
        unfold unconsolidatedInput at hi
        split at hi
        · cases hi
        · split at hi
          · split at hi
            · rw [← Option.some.inj hi]
            · cases hi
          · cases hi
      simp only [Option.toList_some,List.singleton_append,List.map_cons,ho]
      exact ih.cons_cons _

end Sums

section Values

variable {h : BlockHandler} {c : Chain} {coinbase : Transaction} {st : TxStep}
  {infos : FinMap SidechainNumber TxCtipsInfo} {res : Option DepositsOrSuccessfulWithdrawal}
  {s : SidechainNumber}

/-- The tables know the treasury outputs that the transaction spends. -/
theorem StepOk.treasuryOutput?_eq (hok : StepOk h c coinbase st) {i : TxIn} (hi : i ∈ st.tx.input) :
    st.treasuryOutput? h.params.opDrivechain s i.previousOutput =
      ((st.before.dbs.consolidatedInput s i).or
        (st.before.dbs.unconsolidatedInput st.before.unconsolidatedCtips s i)).map Ctip.value := by
  have hb := hok.backed
  obtain ⟨L',hL'⟩ := hok.spends
  obtain ⟨-,hin,-⟩ := Utxos.applyTx_some hL'
  obtain ⟨out,hout⟩ := hin i.previousOutput (List.mem_map.mpr ⟨i,hi,rfl⟩)
  have hctip : (st.before.dbs.ctip.get? s).map Ctip.outpoint = some i.previousOutput →
      h.params.opDrivechain.parse out.scriptPubkey = some s ∧
        ∃ v n, st.before.dbs.ctipOutpointToValueSeq.get? i.previousOutput = some (s,v,n) := by
    intro hc
    obtain ⟨cc,hcc,ho⟩ := Option.map_eq_some_iff.mp hc
    obtain ⟨out',hout',-,hp⟩ := hb.ctip s cc hcc
    obtain ⟨n,hn⟩ := hb.index_ctip hcc
    rw [ho] at hout' hn
    obtain rfl := Option.some.inj (hout.symm.trans hout')
    exact ⟨hp,_,n,hn⟩
  simp only [TxStep.treasuryOutput?,hout,Option.bind_some,TxStep.IsTreasury,consolidatedInput,
    unconsolidatedInput]
  cases hidx : st.before.dbs.ctipOutpointToValueSeq.get? i.previousOutput with
  | some e =>
    obtain ⟨s',v,n⟩ := e
    have hcur := hb.current _ _ _ _ out hidx hout
    obtain ⟨out',hout',hv,hp⟩ := hb.ctip s' _ hcur
    obtain rfl := Option.some.inj (hout.symm.trans hout')
    by_cases hs : s' = s
    · subst hs
      simp [hcur,hv]
    · have hne : h.params.opDrivechain.parse out.scriptPubkey ≠ some s := by
        rw [hp]
        exact fun he => hs (Option.some.inj he)
      have hnc : (st.before.dbs.ctip.get? s).map Ctip.outpoint ≠ some i.previousOutput :=
        fun hc => hne (hctip hc).1
      simp only [hs,hne,hnc,if_false,and_false,or_self,Option.or_none,Option.map_none]
  | none =>
    have hnc : (st.before.dbs.ctip.get? s).map Ctip.outpoint ≠ some i.previousOutput := by
      intro hc
      obtain ⟨-,v,n,hn⟩ := hctip hc
      rw [hidx] at hn
      cases hn
    simp only [hnc,false_or,Option.none_or]
    have hun := hb.unconsolidated i.previousOutput s out.value
    rw [hidx,hout] at hun
    cases hu : st.before.unconsolidatedCtips.byOutpoint.get? i.previousOutput with
    | none =>
      rw [hu] at hun
      rw [if_neg]
      · rfl
      · rintro ⟨hact,hdn,hp⟩
        exact absurd (hun.mpr ⟨hdn,hact,rfl,out,rfl,rfl,hp⟩) (by simp)
    | some e =>
      obtain ⟨s',v⟩ := e
      have hu' := (hb.unconsolidated _ s' v).mp hu
      obtain ⟨hdn,hact,-,out',hout',hv,hp⟩ := hu'
      obtain rfl := Option.some.inj (hout.symm.trans hout')
      by_cases hs : s' = s
      · subst hs
        simp [hact,hdn,hp,hv]
      · have hne : h.params.opDrivechain.parse out.scriptPubkey ≠ some s := by
          rw [hp]
          exact fun he => hs (Option.some.inj he)
        simp only [hs,hne,if_false,and_false,Option.map_none]

theorem StepOk.spentOf_eq (hok : StepOk h c coinbase st) :
    st.spentOf h.params.opDrivechain s = st.tx.input.filterMap (fun i =>
      ((st.before.dbs.consolidatedInput s i).or
        (st.before.dbs.unconsolidatedInput st.before.unconsolidatedCtips s i)).map Ctip.value) := by
  rw [TxStep.spentOf,Transaction.spent,List.filterMap_map]
  refine List.filterMap_congr ?_
  intro i hi
  exact hok.treasuryOutput?_eq hi

/-- The code finds what the transaction spends of a treasury. -/
theorem StepOk.valueIn_eq (hok : StepOk h c coinbase st) (hd : TxDone h st.before st.tx st.after infos res)
    {info : TxCtipsInfo}
    (hi : slotInfo h st.before.dbs st.before.unconsolidatedCtips st.tx s = some info) :
    info.treasuryValueIn = st.valueIn h.params.opDrivechain s := by
  obtain ⟨hform,-⟩ := fillCtips_ok.mp hd.fill
  obtain ⟨L',hL'⟩ := hok.spends
  obtain ⟨hnodup,-,-⟩ := Utxos.applyTx_some hL'
  obtain ⟨-,n,out,-,-,hinfo,-⟩ := slotInfo_output hi
  have hun : (st.before.dbs.unconsolidatedInputs st.before.unconsolidatedCtips s st.tx.input).Nodup :=
    List.Nodup.of_map Ctip.outpoint
      ((unconsolidatedInputs_sublist _ _ _ _).nodup hnodup)
  have hexcl : ∀ i ∈ st.tx.input, ∀ x, st.before.dbs.consolidatedInput s i = some x →
      st.before.dbs.unconsolidatedInput st.before.unconsolidatedCtips s i = none := by
    intro i _ x hx
    unfold consolidatedInput at hx
    unfold unconsolidatedInput
    split at hx
    · rename_i he
      simp [he]
    · cases hx
  rw [TxStep.valueIn,hok.spentOf_eq,sum_filterMap_or _ _ _ _ hexcl,hinfo]
  have hcons := head?_getD_eq_sum (hform.oneConsolidated s)
  have hset := ((asSet_perm hun).map Ctip.value).sum_eq
  simp only [TxCtipsInfo.treasuryValueIn,addInputs,hcons,hset]
  rfl

/-- An active slot has no new treasury output, or exactly one. -/
theorem createdOf_cases (hd : TxDone h st.before st.tx st.after infos res)
    (hact : st.before.dbs.sidechain.contains s = true) :
    (slotInfo h st.before.dbs st.before.unconsolidatedCtips st.tx s = none ∧
      st.createdOf h.params.opDrivechain s = []) ∨
    ∃ info out, slotInfo h st.before.dbs st.before.unconsolidatedCtips st.tx s = some info ∧
      st.createdOf h.params.opDrivechain s = [(out,info.ctipOutput.outpoint.vout)] ∧
      info.ctipOutput.value = out.value := by
  obtain ⟨hform,-⟩ := fillCtips_ok.mp hd.fill
  have hone := hform.oneOutput s hact
  unfold TxStep.createdOf
  cases hl : h.params.opDrivechain.slotOutputs st.tx.output.zipIdx s with
  | nil =>
    refine .inl ⟨?_,rfl⟩
    rw [slotInfo,if_pos hact,hl]
    rfl
  | cons e l =>
    obtain ⟨out,n⟩ := e
    rw [hl,List.length_cons] at hone
    have hnil : l = [] := List.length_eq_zero_iff.mp (by omega)
    have hmem : (out,n) ∈ h.params.opDrivechain.slotOutputs st.tx.output.zipIdx s := by
      rw [hl]; simp
    obtain ⟨info,hi,hco⟩ := slotInfo_of_mem (u := st.before.unconsolidatedCtips) hact
      (by rw [hl,hnil]; simp) hmem
    exact .inr ⟨info,out,hi,by rw [hnil,hco],by rw [hco]⟩

theorem valueOut_eq (hd : TxDone h st.before st.tx st.after infos res) {info : TxCtipsInfo}
    (hi : slotInfo h st.before.dbs st.before.unconsolidatedCtips st.tx s = some info) :
    info.ctipOutput.value = st.valueOut h.params.opDrivechain s := by
  rcases createdOf_cases hd (slotInfo_output hi).1 with ⟨hn,-⟩ | ⟨info',out,hi',hc,hv⟩
  · rw [hi] at hn; cases hn
  · obtain rfl := Option.some.inj (hi.symm.trans hi')
    rw [TxStep.valueOut,hc,hv]
    simp

end Values

end Bip300301Enforcer
