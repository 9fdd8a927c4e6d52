import Bip300301Enforcer.CoinbasePhase

/-! The transactions of a block after its coinbase: each one keeps the links
between the tables and can be taken back. -/
namespace Bip300301Enforcer
open Lib

namespace BlockHandler
open Diff ActiveSidechainDbs

variable {h : BlockHandler} {dbs : ActiveSidechainDbs} {tx : Transaction}

section Withdrawal

def treasuryInputs (info : TxCtipsInfo) (consolidated : Ctip) : List OutPoint :=
  info.unconsolidatedCtipInputs.map Ctip.outpoint++[consolidated.outpoint]

theorem checkInputs_ok {l : List OutPoint} {ins : List TxIn} {r : Unit} :
    checkInputs l ins = .ok r ↔ ∀ i ∈ ins, i.previousOutput ∈ l := by
  induction ins with
  | nil => simp [checkInputs]
  | cons i ins ih =>
    simp only [checkInputs,Fallible.bind_ok,Fallible.ensure_ok,ih,decide_eq_true_eq,List.mem_cons,
      forall_eq_or_imp]
    constructor
    · rintro ⟨_,h⟩
      exact h
    · intro h
      exact ⟨(),h⟩

variable [Bitcoin]

/-- A withdrawal from a slot, as the code checks it. -/
structure Withdraws (h : BlockHandler) (dbs : ActiveSidechainDbs) (tx : Transaction)
    (s : SidechainNumber) (info : TxCtipsInfo) (d : M6) (consolidated : Ctip) (p : PendingM6ids) :
    Prop where
  slot : d.sidechainNumber = s
  newCtip : d.newCtip = info.ctipOutput
  spendsCtip : info.consolidatedCtipInput = some consolidated
  onlyTreasury : ∀ i ∈ tx.input, i.previousOutput ∈ treasuryInputs info consolidated
  vout : info.ctipOutput.outpoint.vout = 0
  m6id : h.params.opDrivechain.computeM6id tx info.treasuryValueIn =
    .ok (d.removedPendingWithdrawal,s)
  pending : dbs.pendingM6ids.get? s = some p
  position : p.getFull d.removedPendingWithdrawal =
    some (d.removedPendingWithdrawalIndex,d.removedPendingWithdrawalInfo)
  payable : h.requirePayableBundles = true →
    h.thresholds.withdrawalBundleInclusionThreshold < d.removedPendingWithdrawalInfo.voteCount

omit [Bitcoin] in
theorem payable_iff {a : Bool} {p : Prop} [Decidable p] :
    (!a || decide p) = true ↔ (a = true → p) := by
  cases a <;> simp

theorem makeM6_ok {s : SidechainNumber} {info : TxCtipsInfo} {d : M6} :
    h.makeM6 dbs tx s info = .ok d ↔ ∃ consolidated p, Withdraws h dbs tx s info d consolidated p := by
  simp only [makeM6,handleM6,Fallible.bind_ok,Fallible.require_ok,Fallible.ensure_ok,
    Fallible.pure_ok,checkInputs_ok,Fallible.mapError_ok,decide_eq_true_eq,payable_iff,Prod.exists]
  constructor
  · rintro ⟨c,hc,_,hin,_,hv,m6id,s',index,pinfo,⟨m,s'',hm,p,hp,i,f,hfull,_,hpay,he⟩,_,rfl,rfl⟩
    simp only [Prod.mk.injEq] at he
    obtain ⟨rfl,rfl,rfl,rfl⟩ := he
    exact ⟨c,p,rfl,rfl,hc,hin,hv,hm,hp,hfull,hpay⟩
  · rintro ⟨c,p,hw⟩
    obtain ⟨s₀,nc,m6id,index,pinfo⟩ := d
    obtain ⟨rfl,rfl,hc,hin,hv,hm,hp,hfull,hpay⟩ := hw
    exact ⟨c,hc,(),hin,(),hv,m6id,_,index,pinfo,⟨m6id,_,hm,p,hp,index,pinfo,hfull,(),hpay,rfl⟩,
      (),rfl,rfl⟩

end Withdrawal

variable [Bitcoin]

structure TxDone (h : BlockHandler) (acc : TxState) (tx : Transaction) (acc' : TxState)
    (infos : FinMap SidechainNumber TxCtipsInfo) (res : Option DepositsOrSuccessfulWithdrawal) :
    Prop where
  fill : h.fillCtips acc.dbs acc.unconsolidatedCtips tx = .ok infos
  outcome : Outcome h acc.dbs tx infos.toList res
  unconsolidated : acc'.unconsolidatedCtips = updateAll acc.dbs acc.unconsolidatedCtips infos.toList
  effect : match transactionResult tx res with
    | none => acc'.dbs = acc.dbs ∧ acc'.events = acc.events ∧ acc'.diffs = acc.diffs
    | some (event,d) => d.apply acc.dbs = .ok acc'.dbs ∧
        acc'.events = acc.events++[event.toBlockEvent] ∧ acc'.diffs = acc.diffs++[d]

theorem connectTx_ok {accepted : BmmCommitments} {parent blockHash : BlockHash}
    {acc acc' : TxState} (hc : h.connectTx accepted parent blockHash acc tx = .ok acc') :
    ∃ infos res, TxDone h acc tx acc' infos res := by
  obtain ⟨⟨handled,u⟩,hh,hc⟩ := Fallible.bind_ok.mp hc
  rw [Fallible.mapError_ok] at hh
  obtain ⟨⟨res,u'⟩,hm,hh⟩ := Fallible.bind_ok.mp hh
  obtain ⟨_,-,hh⟩ := Fallible.bind_ok.mp hh
  simp only [Fallible.pure_ok,Prod.mk.injEq] at hh
  obtain ⟨rfl,rfl⟩ := hh
  obtain ⟨slots,-,hc⟩ := Fallible.bind_ok.mp hc
  obtain ⟨infos,hfill,hout,hu⟩ := handleM5M6_ok hm
  refine ⟨infos,res,hfill,hout,?_,?_⟩
  · rw [← hu]
    cases hr : transactionResult tx res with
    | none => simp only [hr] at hc; obtain rfl := Except.ok.inj hc; rfl
    | some e =>
      simp only [hr] at hc
      obtain ⟨dbs',-,hc⟩ := Fallible.bind_ok.mp hc
      rw [Fallible.pure_ok] at hc
      subst hc
      rfl
  · cases hr : transactionResult tx res with
    | none => simp only [hr] at hc; obtain rfl := Except.ok.inj hc; exact ⟨rfl,rfl,rfl⟩
    | some e =>
      obtain ⟨event,d⟩ := e
      simp only [hr] at hc
      obtain ⟨dbs',ha,hc⟩ := Fallible.bind_ok.mp hc
      rw [Fallible.pure_ok] at hc
      subst hc
      exact ⟨ha,rfl,rfl⟩

section NewCtips

variable {acc acc' : TxState} {infos : FinMap SidechainNumber TxCtipsInfo}
  {res : Option DepositsOrSuccessfulWithdrawal}

/-- The ctips that a transaction puts. -/
def newCtips : Option DepositsOrSuccessfulWithdrawal → FinMap SidechainNumber Ctip
  | none => .empty
  | some (.m5Deposits _ d) => d.newCtips
  | some (.m6Withdrawal _ _ _ d) => FinMap.insert .empty d.sidechainNumber d.newCtip

theorem TxDone.slotInfo_eq (hd : TxDone h acc tx acc' infos res) (s : SidechainNumber) :
    infos.get? s = slotInfo h acc.dbs acc.unconsolidatedCtips tx s :=
  (fillCtips_ok.mp hd.fill).2 s

theorem newCtipOf_withdraws {s : SidechainNumber} {info : TxCtipsInfo} {d : M6} {c : Ctip}
    {p : PendingM6ids} (hw : Withdraws h dbs tx s info d c p) :
    newCtipOf dbs s info = some d.newCtip := by
  simp [newCtipOf,isNewCtip,hw.spendsCtip,hw.newCtip]

/-- The new ctips are the treasury outputs that replace one or are the first. -/
theorem newCtips_get? (hd : TxDone h acc tx acc' infos res) (s : SidechainNumber) :
    (newCtips res).get? s =
      (slotInfo h acc.dbs acc.unconsolidatedCtips tx s).bind (newCtipOf acc.dbs s) := by
  have ho := hd.outcome
  rw [← hd.slotInfo_eq s]
  match res with
  | none =>
    have hnil : infos.toList = [] := ho
    cases hi : infos.get? s with
    | none => simp [newCtips]
    | some info => simpa [hnil] using FinMap.mem_toList.mpr hi
  | some (.m5Deposits deposits d) =>
    obtain ⟨-,hslots,hnone⟩ := ho
    cases hi : infos.get? s with
    | none =>
      have hs : s ∉ infos.keys := FinMap.not_mem_keys.mpr hi
      exact (hnone s hs).2
    | some info => exact (hslots (s,info) (FinMap.mem_toList.mpr hi)).2
  | some (.m6Withdrawal s' m6id n d) =>
    obtain ⟨info,hl,-,hm,-,-⟩ := ho
    obtain ⟨c,p,hw⟩ := makeM6_ok.mp hm
    have hmem : ∀ info', infos.get? s = some info' ↔ (s,info') = (s',info) := by
      intro info'
      rw [← FinMap.mem_toList,hl,List.mem_singleton]
    rw [newCtips,FinMap.get?_insert,hw.slot]
    by_cases hs : s' = s
    · subst hs
      rw [(hmem info).mpr rfl,if_pos rfl,Option.bind_some,newCtipOf_withdraws hw]
    · rw [if_neg hs,FinMap.get?_empty]
      cases hi : infos.get? s with
      | none => rfl
      | some info' => exact absurd (congrArg Prod.fst ((hmem info').mp hi)).symm hs

/-- What a transaction reports of one slot: nothing, a withdrawal that lowers its treasury, or
the deposits of the transaction. -/
theorem TxDone.slotEvents (hd : TxDone h acc tx acc' infos res) (s : SidechainNumber) :
    ∃ new, acc'.events = acc.events++new ∧
      ((slotInfo h acc.dbs acc.unconsolidatedCtips tx s = none ∧ ∀ e ∈ new,
          (∃ ds, e = .deposits ds ∧ ds.get? s = none) ∨
          ∃ s' m6id n, s' ≠ s ∧ e = .withdrawalBundle ⟨s',m6id,.succeeded n tx⟩) ∨
        (∃ info m6id, slotInfo h acc.dbs acc.unconsolidatedCtips tx s = some info ∧
          info.ctipOutput.value < info.treasuryValueIn ∧
          new = [.withdrawalBundle ⟨s,m6id,.succeeded (acc.dbs.count s) tx⟩]) ∨
        ∃ info ds, slotInfo h acc.dbs acc.unconsolidatedCtips tx s = some info ∧
          SlotDeposits acc.dbs tx s info (ds.get? s) ∧ new = [.deposits ds]) := by
  have heff := hd.effect
  have ho := hd.outcome
  rw [← hd.slotInfo_eq s]
  match res with
  | none =>
    obtain ⟨-,he,-⟩ := heff
    have hnil : infos.toList = [] := ho
    refine ⟨[],by rw [he,List.append_nil],.inl ⟨?_,by simp⟩⟩
    cases hi : infos.get? s with
    | none => rfl
    | some info => simpa [hnil] using FinMap.mem_toList.mpr hi
  | some (.m5Deposits deposits d) =>
    obtain ⟨-,he,-⟩ := heff
    obtain ⟨-,hslots,hout⟩ := ho
    refine ⟨_,he,?_⟩
    cases hi : infos.get? s with
    | none =>
      have hs : s ∉ infos.keys := FinMap.not_mem_keys.mpr hi
      refine .inl ⟨rfl,fun e hm => .inl ⟨deposits,List.mem_singleton.mp hm,(hout s hs).1⟩⟩
    | some info =>
      exact .inr (.inr ⟨info,deposits,rfl,(hslots (s,info) (FinMap.mem_toList.mpr hi)).1,rfl⟩)
  | some (.m6Withdrawal s' m6id n d) =>
    obtain ⟨-,he,-⟩ := heff
    obtain ⟨info,hl,hlt,-,-,rfl⟩ := ho
    refine ⟨_,he,?_⟩
    by_cases hs : s' = s
    · subst hs
      have hi : infos.get? s' = some info := FinMap.mem_toList.mp (by rw [hl]; simp)
      exact .inr (.inl ⟨info,m6id,hi,hlt,rfl⟩)
    · refine .inl ⟨?_,fun e hm => .inr ⟨s',m6id,_,hs,List.mem_singleton.mp hm⟩⟩
      cases hi : infos.get? s with
      | none => rfl
      | some info' =>
        have hm := FinMap.mem_toList.mpr hi
        rw [hl,List.mem_singleton] at hm
        exact absurd (congrArg Prod.fst hm).symm hs

theorem TxDone.sameTreasury (hd : TxDone h acc tx acc' infos res) :
    SameTreasury acc'.dbs (acc.dbs.putCtips (newCtips res).toList) := by
  have heff := hd.effect
  match res with
  | none =>
    obtain ⟨he,-,-⟩ := heff
    have hnil : (newCtips none).toList = [] := FinMap.toList_empty
    rw [he,hnil]
    exact .refl _
  | some (.m5Deposits deposits d) =>
    obtain ⟨he,-,-⟩ := heff
    rw [← Except.ok.inj he]
    exact .refl _
  | some (.m6Withdrawal s m6id n d) =>
    obtain ⟨he,-,-⟩ := heff
    obtain ⟨p,-,hdbs⟩ := M6.apply_ok.mp he
    rw [hdbs,newCtips,FinMap.toList_singleton]
    exact ⟨rfl,rfl,rfl,rfl⟩

theorem newCtip_info (hd : TxDone h acc tx acc' infos res) {s : SidechainNumber} {c : Ctip}
    (hc : (newCtips res).get? s = some c) :
    ∃ info, slotInfo h acc.dbs acc.unconsolidatedCtips tx s = some info ∧
      isNewCtip acc.dbs s info = true ∧ c = info.ctipOutput := by
  rw [newCtips_get? hd] at hc
  obtain ⟨info,hi,hn⟩ := Option.bind_eq_some_iff.mp hc
  refine ⟨info,hi,?_⟩
  unfold newCtipOf at hn
  split at hn
  · rename_i hnew
    exact ⟨hnew,(Option.some.inj hn).symm⟩
  · cases hn

theorem newCtip_txid (hd : TxDone h acc tx acc' infos res) {s : SidechainNumber} {c : Ctip}
    (hc : (newCtips res).get? s = some c) : c.outpoint.txid = tx.computeTxid := by
  obtain ⟨info,hi,-,rfl⟩ := newCtip_info hd hc
  exact slotInfo_txid hi

theorem newCtip_active (hd : TxDone h acc tx acc' infos res) {s : SidechainNumber} {c : Ctip}
    (hc : (newCtips res).get? s = some c) : acc.dbs.sidechain.contains s = true := by
  obtain ⟨info,hi,-,-⟩ := newCtip_info hd hc
  exact (slotInfo_output hi).1

theorem outpoints_nodup (hd : TxDone h acc tx acc' infos res) :
    ((newCtips res).toList.map (fun e => e.2.outpoint)).Nodup := by
  rw [List.Nodup,List.pairwise_map]
  refine (newCtips res).pairwise_toList ?_
  intro e he e' he' hne heq
  obtain ⟨info,hi,-,hc⟩ := newCtip_info hd (FinMap.mem_toList.mp he)
  obtain ⟨info',hi',-,hc'⟩ := newCtip_info hd (FinMap.mem_toList.mp he')
  rw [hc,hc'] at heq
  exact hne (slotInfo_outpoint_inj hi hi' heq)

end NewCtips

omit [Bitcoin] in
theorem index_none_of_fresh {T : Txid → Prop} (hi : dbs.Indexed) (hm : dbs.MadeBy T) {o : OutPoint}
    (ho : ¬ T o.txid) : dbs.ctipOutpointToValueSeq.get? o = none := by
  cases hg : dbs.ctipOutpointToValueSeq.get? o with
  | none => rfl
  | some e =>
    obtain ⟨s,v,n⟩ := e
    obtain ⟨u,hu,rfl,-⟩ := (hi o s v n).mp hg
    exact absurd (hm s n u hu) ho

/-- The pending bundles after a transaction: a withdrawal removes the one it pays. -/
theorem TxDone.pending {acc acc' : TxState} {infos : FinMap SidechainNumber TxCtipsInfo}
    {res : Option DepositsOrSuccessfulWithdrawal} (hd : TxDone h acc tx acc' infos res) :
    acc'.dbs.sidechain = acc.dbs.sidechain ∧
    match res with
    | some (.m6Withdrawal s m6id _ _) => ∃ p, acc.dbs.pendingM6ids.get? s = some p ∧
        acc'.dbs.pendingM6ids = acc.dbs.pendingM6ids.insert s (p.remove m6id)
    | _ => acc'.dbs.pendingM6ids = acc.dbs.pendingM6ids := by
  have heff := hd.effect
  have ho := hd.outcome
  match res with
  | none =>
    obtain ⟨he,-,-⟩ := heff
    rw [he]
    exact ⟨rfl,rfl⟩
  | some (.m5Deposits deposits d) =>
    obtain ⟨he,-,-⟩ := heff
    rw [← Except.ok.inj he]
    exact ⟨putCtips_sidechain _ _,putCtips_pendingM6ids _ _⟩
  | some (.m6Withdrawal s m6id n d) =>
    obtain ⟨he,-,-⟩ := heff
    obtain ⟨info,-,-,hm,rfl,-⟩ := ho
    obtain ⟨c,p,hw⟩ := makeM6_ok.mp hm
    obtain ⟨p',hp',hdbs⟩ := M6.apply_ok.mp he
    rw [hw.slot] at hp' hdbs
    rw [hdbs]
    exact ⟨rfl,p',hp',rfl⟩

theorem txDone_frame {acc acc' : TxState} {infos : FinMap SidechainNumber TxCtipsInfo}
    {res : Option DepositsOrSuccessfulWithdrawal} (hd : TxDone h acc tx acc' infos res)
    (ht : acc.dbs.Tables) :
    acc'.dbs.Tables ∧ acc'.dbs.sidechain = acc.dbs.sidechain := by
  obtain ⟨hsc,hpend⟩ := hd.pending
  have htp : (acc.dbs.putCtips (newCtips res).toList).Tables :=
    tables_putCtips _ ht (fun e he => newCtip_active hd (FinMap.mem_toList.mp he))
  have hcontains : ∀ s, acc'.dbs.pendingM6ids.contains s = acc.dbs.pendingM6ids.contains s := by
    intro s
    match res with
    | none => rw [hpend]
    | some (.m5Deposits _ _) => rw [hpend]
    | some (.m6Withdrawal s' _ _ _) =>
      obtain ⟨p,hp,hpend⟩ := hpend
      rw [hpend,FinMap.contains_insert]
      by_cases hne : s' = s
      · subst hne; simp [FinMap.contains,hp]
      · simp [hne]
  refine ⟨⟨fun s => ?_,fun s => hd.sameTreasury.history (htp.history s),fun s hs => ?_⟩,hsc⟩
  · rw [hcontains s,hsc,ht.pending s]
  · rw [hd.sameTreasury.ctip] at hs
    rw [hsc,← putCtips_sidechain]
    exact htp.ctipActive s hs

theorem txDone_indexed {acc acc' : TxState} {infos : FinMap SidechainNumber TxCtipsInfo}
    {res : Option DepositsOrSuccessfulWithdrawal} {T : Txid → Prop}
    (hd : TxDone h acc tx acc' infos res) (ht : acc.dbs.Tables) (hi : acc.dbs.Indexed)
    (hm : acc.dbs.MadeBy T) (hfresh : ¬ T tx.computeTxid) :
    acc'.dbs.Indexed ∧ acc'.dbs.MadeBy (fun t => T t ∨ t = tx.computeTxid) := by
  have htxid : ∀ e ∈ (newCtips res).toList, e.2.outpoint.txid = tx.computeTxid :=
    fun e he => newCtip_txid hd (FinMap.mem_toList.mp he)
  constructor
  · refine hd.sameTreasury.indexed (indexed_putCtips _ hi ht.history ?_ (outpoints_nodup hd))
    intro e he
    exact index_none_of_fresh hi hm (by rw [htxid e he]; exact hfresh)
  · exact hd.sameTreasury.madeBy (madeBy_putCtips _ (hm.mono (fun t ht => .inl ht))
      (fun e he => .inr (htxid e he)))

/-- A transaction can be taken back, up to the index unless its outpoints are new. -/
theorem txDone_undo {P : Prop} {acc acc' : TxState} {infos : FinMap SidechainNumber TxCtipsInfo}
    {res : Option DepositsOrSuccessfulWithdrawal} {a₀ : ActiveSidechainDbs}
    (hd : TxDone h acc tx acc' infos res) (ht : acc.dbs.Tables)
    (hnew : P → ∀ o : OutPoint, o.txid = tx.computeTxid →
      acc.dbs.ctipOutpointToValueSeq.get? o = none)
    (hu : Undo.UndoesAll Tx.undo (Like P) acc.diffs acc.dbs a₀) :
    Undo.UndoesAll Tx.undo (Like P) acc'.diffs acc'.dbs a₀ := by
  have heff := hd.effect
  have ho := hd.outcome
  match res with
  | none =>
    obtain ⟨he,-,hds⟩ := heff
    rw [he,hds]
    exact hu
  | some (.m5Deposits deposits d) =>
    obtain ⟨he,-,hds⟩ := heff
    rw [hds,← Except.ok.inj he]
    refine Undo.undoesAll_snoc hu ?_
    have hund : Undo.Undoes M5.undo (Like P) d (d.apply acc.dbs) acc.dbs := by
      refine M5.undoes_apply (fun s c _ => (ht.history s).slotOk) ?_
      intro hP s c hc
      exact hnew hP _ (newCtip_txid hd hc)
    exact hund
  | some (.m6Withdrawal s m6id n d) =>
    obtain ⟨he,-,hds⟩ := heff
    obtain ⟨info,-,-,hmk,-,-⟩ := ho
    obtain ⟨c,p,hw⟩ := makeM6_ok.mp hmk
    rw [hds]
    refine Undo.undoesAll_snoc hu ?_
    have hund : Undo.Undoes M6.undo (Like P) d acc'.dbs acc.dbs := by
      refine M6.undoes_apply (ht.history _).slotOk ?_ ?_ he
      · intro hP
        exact hnew hP _ (newCtip_txid hd (FinMap.get?_insert_self _ _ _))
      · intro p' hp'
        rw [hw.slot,hw.pending] at hp'
        obtain rfl := Option.some.inj hp'
        exact hw.position
    exact hund

end BlockHandler
end Bip300301Enforcer
