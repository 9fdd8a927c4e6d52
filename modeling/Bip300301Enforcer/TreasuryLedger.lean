import Bip300301Enforcer.Utxo

/-! The treasury tables agree with the unspent outputs: the ctips and the
unconsolidated outputs are exactly the treasury outputs that are not spent. -/
namespace Bip300301Enforcer
open Lib Chain

namespace ActiveSidechainDbs

theorem putCtips_ctip (dbs : ActiveSidechainDbs) (l : List (SidechainNumber × Ctip)) :
    (dbs.putCtips l).ctip = dbs.ctip.insertAll l := by
  induction l generalizing dbs with
  | nil => rfl
  | cons e l ih => rw [putCtips_cons,ih]; rfl

/-- The index after new and different ctips are put into different slots. -/
theorem putCtips_index {dbs : ActiveSidechainDbs} {l : List (SidechainNumber × Ctip)}
    (hkeys : (l.map Prod.fst).Nodup) (hinj : (l.map (fun e => e.2.outpoint)).Nodup)
    (hnew : ∀ e ∈ l, dbs.ctipOutpointToValueSeq.get? e.2.outpoint = none)
    {o : OutPoint} {s : SidechainNumber} {v n : ℕ} :
    (dbs.putCtips l).ctipOutpointToValueSeq.get? o = some (s,v,n) ↔
      dbs.ctipOutpointToValueSeq.get? o = some (s,v,n) ∨ ((s,⟨o,v⟩) ∈ l ∧ n = dbs.count s) := by
  induction l generalizing dbs with
  | nil => simp [putCtips]
  | cons e l ih =>
    obtain ⟨s₀,c⟩ := e
    simp only [List.map_cons,List.nodup_cons] at hkeys hinj
    have hnone : dbs.ctipOutpointToValueSeq.get? c.outpoint = none := hnew _ (List.mem_cons_self ..)
    have hne : ∀ e ∈ l, c.outpoint ≠ e.2.outpoint := by
      intro e he heq
      exact hinj.1 (List.mem_map.mpr ⟨e,he,heq.symm⟩)
    rw [putCtips_cons,ih hkeys.2 hinj.2 (fun e he => by
      rw [putCtip_index,FinMap.get?_insert_ne _ _ (hne e he)]
      exact hnew e (List.mem_cons_of_mem _ he)),putCtip_index,FinMap.get?_insert]
    have hcount : ∀ e ∈ l, (dbs.putCtip s₀ c).count e.1 = dbs.count e.1 := by
      intro e he
      refine count_putCtip_ne dbs s₀ c ?_
      rintro rfl
      exact hkeys.1 (List.mem_map.mpr ⟨e,he,rfl⟩)
    constructor
    · rintro (hi | ⟨hmem,hn⟩)
      · by_cases ho : c.outpoint = o
        · subst ho
          rw [if_pos rfl] at hi
          simp only [Option.some.injEq,Prod.mk.injEq] at hi
          obtain ⟨rfl,rfl,rfl⟩ := hi
          exact .inr ⟨List.mem_cons_self ..,rfl⟩
        · rw [if_neg ho] at hi
          exact .inl hi
      · exact .inr ⟨List.mem_cons_of_mem _ hmem,by rw [hn,hcount _ hmem]⟩
    · rintro (hi | ⟨hmem,hn⟩)
      · have ho : c.outpoint ≠ o := by
          rintro rfl
          rw [hnone] at hi
          cases hi
        exact .inl (by rw [if_neg ho]; exact hi)
      · rcases List.mem_cons.mp hmem with he | hmem
        · obtain ⟨rfl,rfl⟩ := Prod.mk.inj he
          exact .inl (by rw [if_pos rfl,hn])
        · exact .inr ⟨hmem,by rw [hn,hcount _ hmem]⟩

end ActiveSidechainDbs

namespace BlockHandler
open ActiveSidechainDbs

variable [Bitcoin] {h : BlockHandler} {tx : Transaction} {acc acc' : TxState}
  {infos : FinMap SidechainNumber TxCtipsInfo} {res : Option DepositsOrSuccessfulWithdrawal}

theorem txDone_ctip (hd : TxDone h acc tx acc' infos res) (s : SidechainNumber) :
    acc'.dbs.ctip.get? s = ((newCtips res).get? s).or (acc.dbs.ctip.get? s) := by
  rw [hd.sameTreasury.ctip,putCtips_ctip,FinMap.get?_insertAll_toList]

theorem txDone_index (hd : TxDone h acc tx acc' infos res)
    (hfresh : ∀ o : OutPoint, o.txid = tx.computeTxid →
      acc.dbs.ctipOutpointToValueSeq.get? o = none) {o : OutPoint} {s : SidechainNumber} {v n : ℕ} :
    acc'.dbs.ctipOutpointToValueSeq.get? o = some (s,v,n) ↔
      acc.dbs.ctipOutpointToValueSeq.get? o = some (s,v,n) ∨
        ((newCtips res).get? s = some ⟨o,v⟩ ∧ n = acc.dbs.count s) := by
  rw [hd.sameTreasury.index,putCtips_index (FinMap.nodup_keys _) (outpoints_nodup hd) ?_,
    FinMap.mem_toList]
  intro e he
  exact hfresh _ (newCtip_txid hd (FinMap.mem_toList.mp he))

/-- Only new ctips are added to the index. -/
theorem txDone_index_none (hd : TxDone h acc tx acc' infos res)
    (hfresh : ∀ o : OutPoint, o.txid = tx.computeTxid →
      acc.dbs.ctipOutpointToValueSeq.get? o = none) {o : OutPoint} :
    acc'.dbs.ctipOutpointToValueSeq.get? o = none ↔
      acc.dbs.ctipOutpointToValueSeq.get? o = none ∧ ∀ s v, (newCtips res).get? s ≠ some ⟨o,v⟩ := by
  constructor
  · intro hn
    constructor
    · cases hi : acc.dbs.ctipOutpointToValueSeq.get? o with
      | none => rfl
      | some e =>
        obtain ⟨s,v,n⟩ := e
        rw [(txDone_index hd hfresh).mpr (.inl hi)] at hn
        cases hn
    · intro s v hc
      rw [(txDone_index hd hfresh).mpr (.inr ⟨hc,rfl⟩)] at hn
      cases hn
  · rintro ⟨hn,hc⟩
    cases hi : acc'.dbs.ctipOutpointToValueSeq.get? o with
    | none => rfl
    | some e =>
      obtain ⟨s,v,n⟩ := e
      rcases (txDone_index hd hfresh).mp hi with hi | ⟨hi,-⟩
      · rw [hn] at hi; cases hi
      · exact absurd hi (hc s v)

end BlockHandler

/-- The treasury tables agree with the unspent outputs. The treasury outputs are
outputs of `M` transactions, and all outputs are those of `T` transactions. -/
structure Backed (op : OpDrivechain) (L : Utxos) (M T : Txid → Prop) (dbs : ActiveSidechainDbs) :
    Prop where
  tables : dbs.Tables
  indexed : dbs.Indexed
  madeBy : dbs.MadeBy M
  le : ∀ t, M t → T t
  outputs : ∀ o out, L.get? o = some out → T o.txid
  /-- A ctip is an unspent treasury output of its slot. -/
  ctip : ∀ s c, dbs.ctip.get? s = some c → ∃ out, L.get? c.outpoint = some out ∧
    out.value = c.value ∧ op.parse out.scriptPubkey = some s
  /-- Of all the ctips that a slot has had, only the current one is unspent. -/
  current : ∀ o s v n out, dbs.ctipOutpointToValueSeq.get? o = some (s,v,n) → L.get? o = some out →
    dbs.ctip.get? s = some ⟨o,v⟩

/-- The same within a block, whose transactions so far are `done`. -/
structure InBlock (op : OpDrivechain) (L : Utxos) (M T done : Txid → Prop) (dbs : ActiveSidechainDbs)
    (u : UnconsolidatedCtips) : Prop extends Backed op L M T dbs where
  made : ∀ t, done t → M t
  /-- The unconsolidated outputs are the unspent treasury outputs of the block
  that are no ctips. -/
  unconsolidated : ∀ o s v, u.byOutpoint.get? o = some (s,v) ↔ done o.txid ∧
    dbs.sidechain.contains s = true ∧ dbs.ctipOutpointToValueSeq.get? o = none ∧
    ∃ out, L.get? o = some out ∧ out.value = v ∧ op.parse out.scriptPubkey = some s

namespace Backed
open ActiveSidechainDbs

variable {op : OpDrivechain} {L : Utxos} {M T : Txid → Prop} {dbs : ActiveSidechainDbs}

theorem index_ctip (hb : Backed op L M T dbs) {s : SidechainNumber} {c : Ctip}
    (hc : dbs.ctip.get? s = some c) :
    ∃ n, dbs.ctipOutpointToValueSeq.get? c.outpoint = some (s,c.value,n) := by
  obtain ⟨n,u,-,hu,ho,hv⟩ := (hb.tables.history s).last hc
  exact ⟨n,(hb.indexed _ _ _ _).mpr ⟨u,hu,ho,hv⟩⟩

variable [Bitcoin]

omit [Bitcoin] in
theorem index_new (hb : Backed op L M T dbs) {o : OutPoint} (ho : ¬ T o.txid) :
    dbs.ctipOutpointToValueSeq.get? o = none :=
  BlockHandler.index_none_of_fresh hb.indexed hb.madeBy (fun hm => ho (hb.le _ hm))

omit [Bitcoin] in
theorem spends_current (hb : Backed op L M T dbs) {s : SidechainNumber} {ins : List TxIn}
    (hin : ∀ o ∈ ins.map TxIn.previousOutput, ∃ out, L.get? o = some out) {c : Ctip}
    (hc : c ∈ dbs.consolidatedInputs s ins) :
    dbs.ctip.get? s = some c ∧ c.outpoint ∈ ins.map TxIn.previousOutput := by
  obtain ⟨⟨i,hi,ho⟩,n,hidx⟩ := mem_consolidatedInputs.mp hc
  have hmem : c.outpoint ∈ ins.map TxIn.previousOutput := List.mem_map.mpr ⟨i,hi,ho⟩
  obtain ⟨out,hout⟩ := hin _ hmem
  exact ⟨hb.current _ _ _ _ out hidx hout,hmem⟩

end Backed

section Step
open BlockHandler ActiveSidechainDbs

variable {h : BlockHandler} {L L' : Utxos} {M T done : Txid → Prop} {acc acc' : TxState}
  {tx : Transaction} {infos : FinMap SidechainNumber TxCtipsInfo}
  {res : Option DepositsOrSuccessfulWithdrawal}

namespace InBlock

theorem new_unspent (hb : InBlock h.params.opDrivechain L M T done acc.dbs acc.unconsolidatedCtips)
    {o : OutPoint} (ho : ¬ T o.txid) : L.get? o = none := by
  cases hl : L.get? o with
  | none => rfl
  | some out => exact absurd (hb.outputs o out hl) ho

theorem new_unconsolidated
    (hb : InBlock h.params.opDrivechain L M T done acc.dbs acc.unconsolidatedCtips)
    {o : OutPoint} (ho : ¬ T o.txid) : acc.unconsolidatedCtips.byOutpoint.get? o = none := by
  cases hu : acc.unconsolidatedCtips.byOutpoint.get? o with
  | none => rfl
  | some e => exact absurd (hb.le _ (hb.made _ ((hb.unconsolidated o e.1 e.2).mp hu).1)) ho

variable [Bitcoin]

/-- An accepted transaction replaces exactly the ctips that it spends, and adds
the first ones. -/
theorem newCtip_iff (hb : InBlock h.params.opDrivechain L M T done acc.dbs acc.unconsolidatedCtips)
    (hd : TxDone h acc tx acc' infos res)
    (hin : ∀ o ∈ tx.spent, ∃ out, L.get? o = some out) {s : SidechainNumber} {c : Ctip}
    (hc : acc.dbs.ctip.get? s = some c) :
    ((newCtips res).get? s).isSome = true ↔ c.outpoint ∈ tx.spent := by
  obtain ⟨hform,-⟩ := fillCtips_ok.mp hd.fill
  constructor
  · intro hs
    obtain ⟨c',hc'⟩ := Option.isSome_iff_exists.mp hs
    obtain ⟨info,hi,hnew,-⟩ := newCtip_info hd hc'
    have hsome : info.consolidatedCtipInput.isSome = true := by
      simpa [isNewCtip,FinMap.contains,hc] using hnew
    obtain ⟨-,n,out,-,-,hinfo,-⟩ := slotInfo_output hi
    rw [hinfo] at hsome
    obtain ⟨c₀,hc₀⟩ := Option.isSome_iff_exists.mp hsome
    obtain ⟨hcur,hmem⟩ := hb.spends_current hin (List.mem_of_mem_head? hc₀)
    obtain rfl := Option.some.inj (hc.symm.trans hcur)
    exact hmem
  · intro hmem
    obtain ⟨n,hidx⟩ := hb.index_ctip hc
    obtain ⟨i,hi,ho⟩ := List.mem_map.mp hmem
    have hcons : c ∈ acc.dbs.consolidatedInputs s tx.input :=
      mem_consolidatedInputs.mpr ⟨⟨i,hi,ho⟩,n,hidx⟩
    rw [newCtips_get? hd]
    cases hsi : slotInfo h acc.dbs acc.unconsolidatedCtips tx s with
    | none => rw [(hform.replaced s hsi).1] at hcons; cases hcons
    | some info =>
      obtain ⟨-,n,out,-,-,hinfo,-⟩ := slotInfo_output hsi
      have hsome : info.consolidatedCtipInput.isSome = true := by
        rw [hinfo]
        change (acc.dbs.consolidatedInputs s tx.input).head?.isSome = true
        cases hl : acc.dbs.consolidatedInputs s tx.input with
        | nil => rw [hl] at hcons; cases hcons
        | cons a l => rfl
      simp [newCtipOf,isNewCtip,hsome]

variable (hb : InBlock h.params.opDrivechain L M T done acc.dbs acc.unconsolidatedCtips)
  (hd : TxDone h acc tx acc' infos res) (hL : L.applyTx tx = some L') (hnew : ¬ T tx.computeTxid)
include hb hL hnew

theorem ledger_own {o : OutPoint} (ho : o.txid = tx.computeTxid) :
    L'.get? o = tx.output[o.vout]? := by
  obtain ⟨-,-,hget⟩ := Utxos.applyTx_some hL
  have hnone : L.get? o = none := hb.new_unspent (by rw [ho]; exact hnew)
  rw [hget o,if_pos ho,hnone,ite_self,Option.or_none]

include hd

/-- A ctip that is not replaced is not spent. -/
theorem step_ctip {s : SidechainNumber} {c : Ctip} (hc : acc'.dbs.ctip.get? s = some c) :
    ∃ out, L'.get? c.outpoint = some out ∧ out.value = c.value ∧
      h.params.opDrivechain.parse out.scriptPubkey = some s := by
  obtain ⟨-,hin,hget⟩ := Utxos.applyTx_some hL
  rw [txDone_ctip hd] at hc
  cases hn : (newCtips res).get? s with
  | some c' =>
    rw [hn,Option.some_or] at hc
    obtain rfl := Option.some.inj hc
    obtain ⟨info,hi,-,rfl⟩ := newCtip_info hd hn
    obtain ⟨-,n,out,hout,hp,hinfo,-⟩ := slotInfo_output hi
    refine ⟨out,?_,?_,hp⟩
    · rw [hb.ledger_own hL hnew (slotInfo_txid hi),hinfo]
      exact hout
    · rw [hinfo]
      rfl
  | none =>
    rw [hn,Option.none_or] at hc
    obtain ⟨out,hout,hv,hp⟩ := hb.ctip s c hc
    have hns : c.outpoint ∉ tx.spent := by
      intro hmem
      have := (hb.newCtip_iff hd hin hc).mpr hmem
      rw [hn] at this
      cases this
    have hne : c.outpoint.txid ≠ tx.computeTxid := fun he => hnew (he ▸ hb.outputs _ _ hout)
    exact ⟨out,by rw [hget,if_neg hne,if_neg hns,hout],hv,hp⟩

theorem step_current {o : OutPoint} {s : SidechainNumber} {v n : ℕ} {out : TxOut}
    (hi : acc'.dbs.ctipOutpointToValueSeq.get? o = some (s,v,n)) (hout : L'.get? o = some out) :
    acc'.dbs.ctip.get? s = some ⟨o,v⟩ := by
  obtain ⟨-,hin,hget⟩ := Utxos.applyTx_some hL
  have hidx : ∀ o : OutPoint, o.txid = tx.computeTxid →
      acc.dbs.ctipOutpointToValueSeq.get? o = none :=
    fun o ho => hb.index_new (by rw [ho]; exact hnew)
  rw [txDone_ctip hd]
  rcases (txDone_index hd hidx).mp hi with hi | ⟨hi,-⟩
  · have hne : o.txid ≠ tx.computeTxid := by
      intro he
      rw [hidx o he] at hi
      cases hi
    rw [hget,if_neg hne] at hout
    split at hout
    · cases hout
    · rename_i hns
      have hc := hb.current o s v n out hi hout
      have hn : (newCtips res).get? s = none := by
        cases hn : (newCtips res).get? s with
        | none => rfl
        | some c' => exact absurd ((hb.newCtip_iff hd hin hc).mp (by rw [hn]; rfl)) hns
      rw [hn,Option.none_or,hc]
  · rw [hi,Option.some_or]

/-- An output of the transaction is left unconsolidated unless it is a ctip. -/
theorem leaves_iff {o : OutPoint} {s : SidechainNumber} {v : ℕ} (htx : o.txid = tx.computeTxid) :
    (∃ info, slotInfo h acc.dbs acc.unconsolidatedCtips tx s = some info ∧
        isNewCtip acc.dbs s info = false ∧ info.ctipOutput = ⟨o,v⟩) ↔
      acc.dbs.sidechain.contains s = true ∧ (∀ s v, (newCtips res).get? s ≠ some ⟨o,v⟩) ∧
        ∃ out, L'.get? o = some out ∧ out.value = v ∧
          h.params.opDrivechain.parse out.scriptPubkey = some s := by
  obtain ⟨hform,-⟩ := fillCtips_ok.mp hd.fill
  rw [hb.ledger_own hL hnew htx]
  constructor
  · rintro ⟨info,hi,hn,hc⟩
    obtain ⟨hact,n,out,hout,hp,hinfo,-⟩ := slotInfo_output hi
    have ho : n = o.vout ∧ out.value = v := by
      rw [hinfo] at hc
      exact ⟨congrArg (fun c => c.outpoint.vout) hc,congrArg Ctip.value hc⟩
    refine ⟨hact,?_,out,by rw [← ho.1]; exact hout,ho.2,hp⟩
    intro s' v' hc'
    obtain ⟨info',hi',hn',hco⟩ := newCtip_info hd hc'
    have hss : s' = s := slotInfo_outpoint_inj hi' hi (by rw [← hco,hc])
    subst hss
    obtain rfl := Option.some.inj (hi.symm.trans hi')
    rw [hn] at hn'
    cases hn'
  · rintro ⟨hact,hno,out,hout,hv,hp⟩
    have hmem : (out,o.vout) ∈ h.params.opDrivechain.slotOutputs tx.output.zipIdx s := by
      refine List.mem_filter.mpr ⟨?_,by simpa using hp⟩
      simpa [List.mem_zipIdx_iff_getElem?] using hout
    obtain ⟨info,hi,hco⟩ := slotInfo_of_mem (u := acc.unconsolidatedCtips) hact
      (hform.oneOutput s hact) hmem
    have ho : info.ctipOutput = ⟨o,v⟩ := by
      obtain ⟨t,m⟩ := o
      simp only at htx
      rw [hco,hv,htx]
    refine ⟨info,hi,?_,ho⟩
    cases hn : isNewCtip acc.dbs s info with
    | false => rfl
    | true =>
      refine absurd ?_ (hno s v)
      rw [newCtips_get? hd,hi,Option.bind_some,newCtipOf,if_pos hn,ho]

theorem step_unconsolidated (o : OutPoint) (s : SidechainNumber) (v : ℕ) :
    acc'.unconsolidatedCtips.byOutpoint.get? o = some (s,v) ↔
      (done o.txid ∨ o.txid = tx.computeTxid) ∧ acc'.dbs.sidechain.contains s = true ∧
      acc'.dbs.ctipOutpointToValueSeq.get? o = none ∧
      ∃ out, L'.get? o = some out ∧ out.value = v ∧
        h.params.opDrivechain.parse out.scriptPubkey = some s := by
  obtain ⟨-,-,hget⟩ := Utxos.applyTx_some hL
  have hidx : ∀ o : OutPoint, o.txid = tx.computeTxid →
      acc.dbs.ctipOutpointToValueSeq.get? o = none :=
    fun o ho => hb.index_new (by rw [ho]; exact hnew)
  rw [hd.unconsolidated,updateAll_fillCtips hd.fill
    (fun o ho => hb.new_unconsolidated (by rw [ho]; exact hnew))
    (fun o e he => ((hb.unconsolidated o e.1 e.2).mp he).2.2.1),hd.pending.1,
    txDone_index_none hd hidx]
  by_cases htx : o.txid = tx.computeTxid
  · have hnone : acc.unconsolidatedCtips.byOutpoint.get? o = none :=
      hb.new_unconsolidated (by rw [htx]; exact hnew)
    rw [hnone,hb.leaves_iff hd hL hnew htx]
    constructor
    · rintro (⟨-,hu⟩ | ⟨hact,hno,hout⟩)
      · cases hu
      · exact ⟨.inr htx,hact,⟨hidx o htx,hno⟩,hout⟩
    · rintro ⟨-,hact,⟨-,hno⟩,hout⟩
      exact .inr ⟨hact,hno,hout⟩
  · rw [hget,if_neg htx,hb.unconsolidated]
    constructor
    · rintro (⟨hns,hdn,hact,hi,out,hout,hv,hp⟩ | ⟨info,hi,-,hc⟩)
      · refine ⟨.inl hdn,hact,⟨hi,?_⟩,out,(if_neg hns).trans hout,hv,hp⟩
        intro s' v' hc'
        exact htx (newCtip_txid hd hc')
      · have := slotInfo_txid hi
        rw [hc] at this
        exact absurd this htx
    · rintro ⟨hdn,hact,⟨hi,-⟩,out,hout,hv,hp⟩
      split at hout
      · cases hout
      · rename_i hns
        exact .inl ⟨hns,hdn.resolve_right htx,hact,hi,out,hout,hv,hp⟩

theorem step : InBlock h.params.opDrivechain L' (fun t => M t ∨ t = tx.computeTxid)
    (fun t => T t ∨ t = tx.computeTxid) (fun t => done t ∨ t = tx.computeTxid) acc'.dbs
    acc'.unconsolidatedCtips := by
  obtain ⟨-,-,hget⟩ := Utxos.applyTx_some hL
  obtain ⟨htab,-⟩ := txDone_frame hd hb.tables
  obtain ⟨hindexed,hmade⟩ := txDone_indexed hd hb.tables hb.indexed hb.madeBy
    (fun hm => hnew (hb.le _ hm))
  refine ⟨⟨htab,hindexed,hmade,fun t ht => ht.imp_left (hb.le t),?_,
    fun s c => hb.step_ctip hd hL hnew,fun o s v n out => hb.step_current hd hL hnew⟩,
    fun t ht => ht.imp_left (hb.made t),hb.step_unconsolidated hd hL hnew⟩
  intro o out ho
  by_cases htx : o.txid = tx.computeTxid
  · exact .inr htx
  · rw [hget,if_neg htx] at ho
    split at ho
    · cases ho
    · exact .inl (hb.outputs o out ho)

end InBlock

end Step

end Bip300301Enforcer
