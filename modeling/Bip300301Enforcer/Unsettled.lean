import Bip300301Enforcer.SuffixTxs
import Bip300301Enforcer.TreasuryLedger

/-! The treasury outputs of a block that are not consolidated yet, as the validator keeps
them: under their outpoints, and by slot. -/
namespace Bip300301Enforcer
open Lib

namespace UnconsolidatedCtips

def ofSlot (u : UnconsolidatedCtips) (s : SidechainNumber) : List Ctip := (u.bySidechain.get? s).getD []

/-- The outputs are the same under their outpoints and by slot. -/
structure InStep (u : UnconsolidatedCtips) : Prop where
  listed : ∀ o s v, u.byOutpoint.get? o = some (s,v) ↔ ⟨o,v⟩ ∈ u.ofSlot s
  nonempty : ∀ s, u.bySidechain.get? s ≠ some []
  nodup : ∀ s, (u.ofSlot s).Nodup

theorem inStep_default : InStep default := by
  constructor <;> simp [default,ofSlot]

variable {u : UnconsolidatedCtips}

theorem InStep.get?_of_mem (h : InStep u) {s : SidechainNumber} {c : Ctip} (hc : c ∈ u.ofSlot s) :
    u.byOutpoint.get? c.outpoint = some (s,c.value) := (h.listed c.outpoint s c.value).mpr hc

theorem InStep.bySidechain_none (h : InStep u) {s : SidechainNumber} :
    u.bySidechain.get? s = none ↔ u.ofSlot s = [] := by
  unfold ofSlot
  cases hs : u.bySidechain.get? s with
  | none => simp
  | some l =>
    have := h.nonempty s
    rw [hs] at this
    simpa using this

/-- Taking an output out leaves the other ones of every slot. -/
theorem InStep.ofSlot_remove (h : InStep u) (o : OutPoint) (a : SidechainNumber) :
    (u.remove o).ofSlot a = (u.ofSlot a).filter (fun c => c.outpoint ≠ o) := by
  cases ho : u.byOutpoint.get? o with
  | none =>
    have hkeep : (u.ofSlot a).filter (fun c => c.outpoint ≠ o) = u.ofSlot a := by
      refine List.filter_eq_self.mpr (fun c hc => decide_eq_true ?_)
      rintro rfl
      rw [h.get?_of_mem hc] at ho
      cases ho
    simp only [remove,ho,hkeep]
  | some e =>
    obtain ⟨s,v⟩ := e
    have hsame : ∀ c ∈ u.ofSlot a, c.outpoint = o → s = a ∧ c = ⟨o,v⟩ := by
      rintro c hc rfl
      rw [h.get?_of_mem hc] at ho
      obtain ⟨rfl,rfl⟩ := Prod.mk.inj (Option.some.inj ho)
      exact ⟨rfl,rfl⟩
    have hmem := (h.listed o s v).mp ho
    obtain ⟨l,hl,hof⟩ : ∃ l, u.bySidechain.get? s = some l ∧ u.ofSlot s = l := by
      cases hs : u.bySidechain.get? s with
      | none => rw [ofSlot,hs] at hmem; cases hmem
      | some l => exact ⟨l,rfl,by rw [ofSlot,hs,Option.getD_some]⟩
    by_cases hs : s = a
    · subst hs
      rw [hof] at hsame ⊢
      have hfilter : l.filter (fun c => c ≠ ⟨o,v⟩) = l.filter (fun c => c.outpoint ≠ o) := by
        refine List.filter_congr (fun c hc => ?_)
        have hiff : c = ⟨o,v⟩ ↔ c.outpoint = o :=
          ⟨fun he => by rw [he],fun he => (hsame c hc he).2⟩
        simp [hiff]
      simp only [ofSlot,remove,ho,hl]
      rw [hfilter]
      split
      · rename_i he
        rw [FinMap.get?_erase_self,List.isEmpty_iff.mp he]
        rfl
      · rw [FinMap.get?_insert_self]
        rfl
    · have hkeep : (u.ofSlot a).filter (fun c => c.outpoint ≠ o) = u.ofSlot a :=
        List.filter_eq_self.mpr (fun c hc => decide_eq_true (fun he => hs (hsame c hc he).1))
      rw [hkeep]
      simp only [ofSlot,remove,ho,hl]
      split
      · rw [FinMap.get?_erase_ne _ hs]
      · rw [FinMap.get?_insert_ne _ _ hs]

theorem InStep.remove (h : InStep u) (o : OutPoint) : InStep (u.remove o) := by
  constructor
  · intro a s v
    rw [byOutpoint_remove,h.ofSlot_remove,List.mem_filter,← h.listed]
    by_cases ha : o = a
    · simp [ha]
    · simp [ha,Ne.symm ha]
  · intro s hs
    unfold UnconsolidatedCtips.remove at hs
    cases ho : u.byOutpoint.get? o with
    | none =>
      rw [ho] at hs
      exact h.nonempty s hs
    | some e =>
      obtain ⟨s',v⟩ := e
      simp only [ho] at hs
      split at hs
      · exact h.nonempty s hs
      · split at hs
        · rw [FinMap.get?_erase] at hs
          split at hs
          · cases hs
          · exact h.nonempty s hs
        · rename_i hne
          rw [FinMap.get?_insert] at hs
          split at hs
          · exact hne (List.isEmpty_iff.mpr (Option.some.inj hs))
          · exact h.nonempty s hs
  · intro s
    rw [h.ofSlot_remove]
    exact (h.nodup s).filter _

theorem InStep.ofSlot_insert (h : InStep u) (s : SidechainNumber) {c : Ctip}
    (hnew : u.byOutpoint.get? c.outpoint = none) (a : SidechainNumber) :
    (u.insert s c).ofSlot a = if s = a then u.ofSlot a++[c] else u.ofSlot a := by
  have hsame : (u.ofSlot s).filter (fun c' => c' ≠ c) = u.ofSlot s := by
    refine List.filter_eq_self.mpr (fun c' hc' => decide_eq_true ?_)
    rintro rfl
    rw [h.get?_of_mem hc'] at hnew
    cases hnew
  have hinsert : (u.insert s c).bySidechain = u.bySidechain.insert s (u.ofSlot s++[c]) := by
    rw [← hsame]
    rfl
  rw [ofSlot,hinsert,FinMap.get?_insert]
  split
  · rename_i hs
    rw [hs]
    rfl
  · rfl

theorem InStep.insert (h : InStep u) (s : SidechainNumber) {c : Ctip}
    (hnew : u.byOutpoint.get? c.outpoint = none) : InStep (u.insert s c) := by
  have hnot : ∀ a, ∀ c' ∈ u.ofSlot a, c'.outpoint ≠ c.outpoint := by
    intro a c' hc' he
    have hget := h.get?_of_mem hc'
    rw [he,hnew] at hget
    cases hget
  constructor
  · intro o s' v
    rw [byOutpoint_insert,h.ofSlot_insert s hnew]
    by_cases ho : c.outpoint = o
    · subst ho
      have hno : (⟨c.outpoint,v⟩ : Ctip) ∉ u.ofSlot s' := fun hm => hnot s' _ hm rfl
      rw [if_pos rfl]
      split
      · rename_i hs
        subst hs
        constructor
        · intro he
          obtain ⟨-,rfl⟩ := Prod.mk.inj (Option.some.inj he)
          exact List.mem_append_right _ (List.mem_singleton_self _)
        · intro hm
          have hm := List.mem_singleton.mp ((List.mem_append.mp hm).resolve_left hno)
          rw [← hm]
      · rename_i hs
        exact ⟨fun he => absurd (Prod.mk.inj (Option.some.inj he)).1 hs,fun hm => absurd hm hno⟩
    · have hne : (⟨o,v⟩ : Ctip) ≠ c := fun he => ho (congrArg Ctip.outpoint he).symm
      rw [if_neg ho,h.listed]
      split
      · simp [hne]
      · rfl
  · intro a ha
    rw [UnconsolidatedCtips.insert,FinMap.get?_insert] at ha
    split at ha
    · simp [linkedInsert] at ha
    · exact h.nonempty a ha
  · intro a
    rw [h.ofSlot_insert s hnew]
    split
    · refine List.nodup_append.mpr ⟨h.nodup a,by simp,?_⟩
      intro x hx y hy he
      rw [List.mem_singleton.mp hy] at he
      exact hnot a x hx (by rw [he])
    · exact h.nodup a

theorem InStep.foldl_remove (h : InStep u) (l : List Ctip) :
    InStep (l.foldl (fun u c => u.remove c.outpoint) u) ∧
      ∀ a, (l.foldl (fun u c => u.remove c.outpoint) u).ofSlot a =
        (u.ofSlot a).filter (fun c => c.outpoint ∉ l.map Ctip.outpoint) := by
  induction l generalizing u with
  | nil => exact ⟨h,fun a => by simp⟩
  | cons c l ih =>
    obtain ⟨hin,hof⟩ := ih (h.remove c.outpoint)
    refine ⟨hin,fun a => ?_⟩
    rw [List.foldl_cons,hof,h.ofSlot_remove,List.filter_filter]
    refine List.filter_congr (fun c' _ => ?_)
    by_cases hc : c'.outpoint = c.outpoint
    · simp [hc]
    · simp [hc]

/-- Outputs that are in step are determined by what each slot has. -/
theorem InStep.ext {u' : UnconsolidatedCtips} (h : InStep u) (h' : InStep u')
    (hof : ∀ s, u.ofSlot s = u'.ofSlot s) : u = u' := by
  have hby : u.byOutpoint = u'.byOutpoint := by
    apply FinMap.ext
    intro o
    apply Option.ext
    rintro ⟨s,v⟩
    rw [h.listed,h'.listed,hof]
  have hslot : u.bySidechain = u'.bySidechain := by
    apply FinMap.ext
    intro s
    have hs := hof s
    have hn := h.nonempty s
    have hn' := h'.nonempty s
    unfold ofSlot at hs
    cases hu : u.bySidechain.get? s with
    | none =>
      rw [hu] at hs
      cases hu' : u'.bySidechain.get? s with
      | none => rfl
      | some l => rw [hu',Option.getD_some] at hs; rw [hu',← hs] at hn'; exact absurd rfl hn'
    | some l =>
      rw [hu] at hs
      cases hu' : u'.bySidechain.get? s with
      | none => rw [hu',Option.getD_some] at hs; rw [hu,hs] at hn; exact absurd rfl hn
      | some l' => rw [hu',Option.getD_some,Option.getD_some] at hs; rw [hs]
  cases u
  cases u'
  simp only at hby hslot
  rw [hby,hslot]

theorem InStep.removeSidechain (h : InStep u) (s : SidechainNumber) :
    InStep (u.removeSidechain s).2 ∧
      ∀ a, (u.removeSidechain s).2.ofSlot a = if s = a then [] else u.ofSlot a := by
  have hof : ∀ a, (u.removeSidechain s).2.ofSlot a = if s = a then [] else u.ofSlot a := by
    intro a
    rw [ofSlot,removeSidechain_get?]
    split <;> rfl
  have herase : ∀ (l : List Ctip) (m : FinMap OutPoint (SidechainNumber × ℕ)) o,
      (l.foldl (fun m c => m.erase c.outpoint) m).get? o =
        if o ∈ l.map Ctip.outpoint then none else m.get? o := by
    intro l
    induction l with
    | nil => simp
    | cons c l ih =>
      intro m o
      rw [List.foldl_cons,ih,FinMap.get?_erase]
      by_cases ho : c.outpoint = o
      · simp [ho]
      · simp [ho,Ne.symm ho]
  refine ⟨⟨?_,?_,?_⟩,hof⟩
  · intro o s' v
    have hby : (u.removeSidechain s).2.byOutpoint.get? o =
        if o ∈ (u.ofSlot s).map Ctip.outpoint then none else u.byOutpoint.get? o := herase _ _ o
    rw [hby,hof]
    by_cases hs : s = s'
    · subst hs
      simp only [if_true,List.not_mem_nil,iff_false]
      split
      · simp
      · rename_i hno
        intro hx
        exact hno (List.mem_map.mpr ⟨_,(h.listed o s v).mp hx,rfl⟩)
    · rw [if_neg hs,← h.listed]
      split
      · rename_i hm
        obtain ⟨c,hc,rfl⟩ := List.mem_map.mp hm
        rw [h.get?_of_mem hc]
        simp [hs]
      · rfl
  · intro a ha
    rw [removeSidechain_get?] at ha
    split at ha
    · cases ha
    · exact h.nonempty a ha
  · intro a
    rw [hof]
    split
    · simp
    · exact h.nodup a

end UnconsolidatedCtips

/-- What is known of the treasuries within a block: the treasury outputs are outputs of `T`
transactions, and those that are not consolidated are no ctips and stand beside one. -/
structure Unsettled (T : Txid → Prop) (dbs : ActiveSidechainDbs) (u : UnconsolidatedCtips) : Prop where
  tables : dbs.Tables
  indexed : dbs.Indexed
  madeBy : dbs.MadeBy T
  inStep : u.InStep
  noCtip : ∀ o s v, u.byOutpoint.get? o = some (s,v) →
    T o.txid ∧ dbs.ctipOutpointToValueSeq.get? o = none ∧ dbs.ctip.contains s = true

section Step
open BlockHandler UnconsolidatedCtips ActiveSidechainDbs

variable {h : BlockHandler} {T : Txid → Prop} {acc acc' : TxState} {tx : Transaction}
  {infos : FinMap SidechainNumber TxCtipsInfo} {res : Option DepositsOrSuccessfulWithdrawal}

theorem inStep_updateAll {dbs : ActiveSidechainDbs} {u : UnconsolidatedCtips} {t : Txid}
    {l : List (SidechainNumber × TxCtipsInfo)} (hu : u.InStep)
    (hout : ∀ e ∈ l, e.2.ctipOutput.outpoint.txid = t)
    (hinj : l.Pairwise (fun e e' => e.2.ctipOutput.outpoint ≠ e'.2.ctipOutput.outpoint))
    (hfresh : ∀ o, o.txid = t → u.byOutpoint.get? o = none) :
    (updateAll dbs u l).InStep ∧ ∀ o, o.txid = t → (∀ e ∈ l, e.2.ctipOutput.outpoint ≠ o) →
      (updateAll dbs u l).byOutpoint.get? o = none := by
  induction l using List.reverseRecOn with
  | nil => exact ⟨hu,fun o ho _ => hfresh o ho⟩
  | append_singleton l e ih =>
    have hpair := List.pairwise_append.mp hinj
    obtain ⟨hin,hnone⟩ := ih (fun e he => hout e (List.mem_append_left _ he)) hpair.1
    have hnew : (updateAll dbs u l).byOutpoint.get? e.2.ctipOutput.outpoint = none :=
      hnone _ (hout e (by simp)) (fun e' he' => hpair.2.2 e' he' e (List.mem_singleton_self e))
    rw [updateAll_snoc]
    constructor
    · have hremoved := (hin.foldl_remove e.2.unconsolidatedCtipInputs).1
      unfold updateUnconsolidated
      dsimp only
      split
      · exact hremoved
      · refine hremoved.insert e.1 ?_
        rw [byOutpoint_foldl_remove,hnew,ite_self]
    · intro o ho hne
      have hold := (updateUnconsolidated_get? dbs (updateAll dbs u l) e o).2
        (fun _ => hne e (by simp))
      rw [hold,hnone o ho (fun e' he' => hne e' (List.mem_append_left _ he')),ite_self]

variable [Bitcoin]

theorem Unsettled.new_unconsolidated (hu : Unsettled T acc.dbs acc.unconsolidatedCtips)
    (hnew : ¬ T tx.computeTxid) (o : OutPoint) (ho : o.txid = tx.computeTxid) :
    acc.unconsolidatedCtips.byOutpoint.get? o = none := by
  cases hg : acc.unconsolidatedCtips.byOutpoint.get? o with
  | none => rfl
  | some e => exact absurd (ho ▸ (hu.noCtip o e.1 e.2 hg).1) hnew

/-- A transaction keeps what is known of the treasuries. -/
theorem Unsettled.step (hu : Unsettled T acc.dbs acc.unconsolidatedCtips)
    (hd : TxDone h acc tx acc' infos res) (hnew : ¬ T tx.computeTxid) :
    Unsettled (fun t => T t ∨ t = tx.computeTxid) acc'.dbs acc'.unconsolidatedCtips := by
  have hfresh := hu.new_unconsolidated hnew
  have hindex : ∀ o : OutPoint, o.txid = tx.computeTxid →
      acc.dbs.ctipOutpointToValueSeq.get? o = none := by
    intro o ho
    exact index_none_of_fresh hu.indexed hu.madeBy (by rw [ho]; exact hnew)
  obtain ⟨hindexed,hmade⟩ := txDone_indexed hd hu.tables hu.indexed hu.madeBy hnew
  have hslot : ∀ e ∈ infos.toList, slotInfo h acc.dbs acc.unconsolidatedCtips tx e.1 = some e.2 := by
    intro e he
    rw [← hd.slotInfo_eq]
    exact FinMap.mem_toList.mp he
  have hctip : ∀ s, acc.dbs.ctip.contains s = true → acc'.dbs.ctip.contains s = true := by
    intro s hs
    rw [FinMap.contains,txDone_ctip hd,Option.isSome_or]
    simp [FinMap.contains] at hs
    simp [hs]
  refine ⟨(txDone_frame hd hu.tables).1,hindexed,hmade,?_,?_⟩
  · rw [hd.unconsolidated]
    exact (inStep_updateAll hu.inStep (fun e he => slotInfo_txid (hslot e he))
      (slotInfos_outpoint_ne hslot) hfresh).1
  · intro o s v ho
    rw [hd.unconsolidated,updateAll_fillCtips hd.fill hfresh
      (fun o e he => (hu.noCtip o e.1 e.2 he).2.1)] at ho
    rw [txDone_index_none hd hindex]
    rcases ho with ⟨-,ho⟩ | ⟨info,hi,hn,hc⟩
    · obtain ⟨hT,hidx,hs⟩ := hu.noCtip o s v ho
      refine ⟨.inl hT,⟨hidx,fun s' v' hc' => ?_⟩,hctip s hs⟩
      have ht := newCtip_txid hd hc'
      exact hnew (ht ▸ hT)
    · have ht : o.txid = tx.computeTxid := by
        have := slotInfo_txid hi
        rw [hc] at this
        exact this
      have hs : acc.dbs.ctip.contains s = true := by
        simp only [isNewCtip,Bool.or_eq_false_iff,Bool.not_eq_false'] at hn
        exact hn.2
      refine ⟨.inr ht,⟨hindex o ht,fun s' v' hc' => ?_⟩,hctip s hs⟩
      obtain ⟨info',hi',hn',hco⟩ := newCtip_info hd hc'
      have hss : s' = s := slotInfo_outpoint_inj hi' hi (by rw [← hco,hc])
      subst hss
      obtain rfl := Option.some.inj (hi.symm.trans hi')
      rw [hn] at hn'
      cases hn'

omit [Bitcoin] in
theorem Unsettled.mono {T' : Txid → Prop} {dbs : ActiveSidechainDbs} {u : UnconsolidatedCtips}
    (hu : Unsettled T dbs u) (h : ∀ t, T t → T' t) : Unsettled T' dbs u :=
  ⟨hu.tables,hu.indexed,hu.madeBy.mono h,hu.inStep,
    fun o s v ho => ⟨h _ (hu.noCtip o s v ho).1,(hu.noCtip o s v ho).2⟩⟩

theorem newTxs_cons {txs : List Transaction} (h : NewTxs T (tx::txs)) :
    ¬ T tx.computeTxid ∧ NewTxs (fun t => T t ∨ t = tx.computeTxid) txs := by
  obtain ⟨hnodup,hT⟩ := h
  rw [List.map_cons,List.nodup_cons] at hnodup
  refine ⟨hT tx (List.mem_cons_self ..),hnodup.2,?_⟩
  rintro tx' htx' (ht | ht)
  · exact hT tx' (List.mem_cons_of_mem _ htx') ht
  · exact hnodup.1 (List.mem_map.mpr ⟨tx',htx',ht⟩)

theorem newTxs_append {txs txs' : List Transaction} (h : NewTxs T (txs++txs')) :
    NewTxs T txs ∧ NewTxs (fun t => T t ∨ t ∈ txs.map Transaction.computeTxid) txs' := by
  obtain ⟨hnodup,hT⟩ := h
  rw [List.map_append,List.nodup_append] at hnodup
  refine ⟨⟨hnodup.1,fun tx htx => hT tx (List.mem_append_left _ htx)⟩,hnodup.2.1,?_⟩
  rintro tx htx (ht | ht)
  · exact hT tx (List.mem_append_right _ htx) ht
  · exact hnodup.2.2 _ ht _ (List.mem_map_of_mem htx) rfl

theorem Unsettled.steps {accepted : BmmCommitments} {parent hash : BlockHash}
    {txs : List Transaction} (hu : Unsettled T acc.dbs acc.unconsolidatedCtips)
    (hf : txs.foldlM (h.connectTx accepted parent hash) acc = .ok acc') (hnew : NewTxs T txs) :
    Unsettled (fun t => T t ∨ t ∈ txs.map Transaction.computeTxid) acc'.dbs
      acc'.unconsolidatedCtips := by
  induction txs generalizing T acc with
  | nil =>
    obtain rfl := Except.ok.inj hf
    simpa using hu
  | cons tx txs ih =>
    rw [List.foldlM_cons,Fallible.bind_ok] at hf
    obtain ⟨acc₁,h₁,hf⟩ := hf
    obtain ⟨infos,res,hd⟩ := connectTx_ok h₁
    obtain ⟨hT,hrest⟩ := newTxs_cons hnew
    simpa only [List.map_cons,List.mem_cons,or_assoc] using ih (hu.step hd hT) hf hrest

end Step

end Bip300301Enforcer
