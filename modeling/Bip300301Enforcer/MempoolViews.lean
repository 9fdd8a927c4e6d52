import Bip300301Enforcer.BmmMempool
import Bip300301Enforcer.TreasuryLedger

/-! What the mempool and a block see of the treasuries that a transaction spends. -/
namespace Bip300301Enforcer
open Lib BlockHandler ActiveSidechainDbs

/-- The treasury output behind an outpoint, and whether it has been a ctip. -/
def treasuryAt (dbs : ActiveSidechainDbs) (u : Database OutPoint (SidechainNumber × ℕ)) (o : OutPoint) :
    Option (Bool × SidechainNumber × ℕ) :=
  match dbs.ctipOutpointToValueSeq.get? o with
  | some (s,v,_) => some (true,s,v)
  | none => (u.get? o).map (fun e => (false,e))

section Views

variable {dbs dbs' : ActiveSidechainDbs} {u u' : UnconsolidatedCtips} {o : OutPoint}
  {s : SidechainNumber} {v : ℕ}

theorem treasuryAt_ctip {u : Database OutPoint (SidechainNumber × ℕ)} :
    treasuryAt dbs u o = some (true,s,v) ↔ ∃ n, dbs.ctipOutpointToValueSeq.get? o = some (s,v,n) := by
  unfold treasuryAt
  cases dbs.ctipOutpointToValueSeq.get? o with
  | none => simp
  | some e => obtain ⟨s',v',n⟩ := e; simp

theorem treasuryAt_unconsolidated {u : Database OutPoint (SidechainNumber × ℕ)} :
    treasuryAt dbs u o = some (false,s,v) ↔
      dbs.ctipOutpointToValueSeq.get? o = none ∧ u.get? o = some (s,v) := by
  unfold treasuryAt
  cases dbs.ctipOutpointToValueSeq.get? o with
  | none => simp
  | some e => simp

theorem treasuryAt_none {u : Database OutPoint (SidechainNumber × ℕ)} :
    treasuryAt dbs u o = none ↔ dbs.ctipOutpointToValueSeq.get? o = none ∧ u.get? o = none := by
  unfold treasuryAt
  cases dbs.ctipOutpointToValueSeq.get? o with
  | none => simp
  | some e => simp

theorem mem_consolidatedInputs_treasuryAt {c : Ctip} {l : List TxIn} :
    c ∈ dbs.consolidatedInputs s l ↔ c.outpoint ∈ l.map TxIn.previousOutput ∧
      treasuryAt dbs u.byOutpoint c.outpoint = some (true,s,c.value) := by
  rw [mem_consolidatedInputs,treasuryAt_ctip,List.mem_map]

theorem mem_unconsolidatedInputs_treasuryAt {c : Ctip} {l : List TxIn} :
    c ∈ dbs.unconsolidatedInputs u s l ↔ c.outpoint ∈ l.map TxIn.previousOutput ∧
      treasuryAt dbs u.byOutpoint c.outpoint = some (false,s,c.value) := by
  rw [mem_unconsolidatedInputs,treasuryAt_unconsolidated,List.mem_map]

theorem inputs_congr {l : List TxIn} (s : SidechainNumber)
    (h : ∀ i ∈ l, treasuryAt dbs u.byOutpoint i.previousOutput =
      treasuryAt dbs' u'.byOutpoint i.previousOutput) :
    dbs.consolidatedInputs s l = dbs'.consolidatedInputs s l ∧
      dbs.unconsolidatedInputs u s l = dbs'.unconsolidatedInputs u' s l := by
  have hread (dbs : ActiveSidechainDbs) (u : UnconsolidatedCtips) (i : TxIn) :
      dbs.consolidatedInput s i = ((treasuryAt dbs u.byOutpoint i.previousOutput).bind
        (fun e => if e.1 = true ∧ e.2.1 = s then some ⟨i.previousOutput,e.2.2⟩ else none)) ∧
      dbs.unconsolidatedInput u s i = ((treasuryAt dbs u.byOutpoint i.previousOutput).bind
        (fun e => if e.1 = false ∧ e.2.1 = s then some ⟨i.previousOutput,e.2.2⟩ else none)) := by
    unfold consolidatedInput unconsolidatedInput treasuryAt
    cases dbs.ctipOutpointToValueSeq.get? i.previousOutput with
    | some e => obtain ⟨s',v,n⟩ := e; simp
    | none =>
      cases u.byOutpoint.get? i.previousOutput with
      | none => simp
      | some e => obtain ⟨s',v⟩ := e; simp
  constructor
  · refine List.filterMap_congr (fun i hi => ?_)
    rw [(hread dbs u i).1,(hread dbs' u' i).1,h i hi]
  · refine List.filterMap_congr (fun i hi => ?_)
    rw [(hread dbs u i).2,(hread dbs' u' i).2,h i hi]

variable [Bitcoin] {h : BlockHandler} {tx : Transaction} {infos : FinMap SidechainNumber TxCtipsInfo}

theorem slot_inputs {info : TxCtipsInfo} {c : Ctip} (hf : h.fillCtips dbs u tx = .ok infos)
    (hi : infos.get? s = some info) :
    (info.consolidatedCtipInput = some c ↔ c.outpoint ∈ tx.spent ∧
      treasuryAt dbs u.byOutpoint c.outpoint = some (true,s,c.value)) ∧
    (c ∈ info.unconsolidatedCtipInputs ↔ c.outpoint ∈ tx.spent ∧
      treasuryAt dbs u.byOutpoint c.outpoint = some (false,s,c.value)) := by
  obtain ⟨hform,hget⟩ := fillCtips_ok.mp hf
  rw [hget] at hi
  obtain ⟨-,n,out,-,-,hinfo,-⟩ := slotInfo_output hi
  have hhead : info.consolidatedCtipInput = (dbs.consolidatedInputs s tx.input).head? := by
    rw [hinfo]
    rfl
  have hset : info.unconsolidatedCtipInputs = asSet (dbs.unconsolidatedInputs u s tx.input) := by
    rw [hinfo]
    rfl
  have hlen := hform.oneConsolidated s
  constructor
  · rw [Transaction.spent,← mem_consolidatedInputs_treasuryAt (u := u),hhead]
    match hl : dbs.consolidatedInputs s tx.input, hlen with
    | [], _ => simp
    | [c'], _ => simp [eq_comm]
  · rw [Transaction.spent,← mem_unconsolidatedInputs_treasuryAt,hset,mem_asSet]

theorem treasuryAt_slot (hf : h.fillCtips dbs u tx = .ok infos) (ho : o ∈ tx.spent) {b : Bool}
    (ht : treasuryAt dbs u.byOutpoint o = some (b,s,v)) : ∃ info, infos.get? s = some info := by
  obtain ⟨hform,hget⟩ := fillCtips_ok.mp hf
  rw [hget s]
  cases hi : slotInfo h dbs u tx s with
  | some info => exact ⟨info,rfl⟩
  | none =>
    obtain ⟨hnil,hnil'⟩ := hform.replaced s hi
    cases b with
    | true =>
      have hm : (⟨o,v⟩ : Ctip) ∈ dbs.consolidatedInputs s tx.input :=
        (mem_consolidatedInputs_treasuryAt (u := u)).mpr ⟨ho,ht⟩
      rw [hnil] at hm
      cases hm
    | false =>
      have hm : (⟨o,v⟩ : Ctip) ∈ dbs.unconsolidatedInputs u s tx.input :=
        mem_unconsolidatedInputs_treasuryAt.mpr ⟨ho,ht⟩
      rw [hnil'] at hm
      cases hm

theorem treasuryAt_of_fillCtips (hf : h.fillCtips dbs u tx = .ok infos)
    (hf' : h.fillCtips dbs' u' tx = .ok infos) (ho : o ∈ tx.spent) {e : Bool × SidechainNumber × ℕ}
    (ht : treasuryAt dbs u.byOutpoint o = some e) : treasuryAt dbs' u'.byOutpoint o = some e := by
  obtain ⟨b,s,v⟩ := e
  obtain ⟨info,hi⟩ := treasuryAt_slot hf ho ht
  obtain ⟨hc,hu⟩ := slot_inputs (c := ⟨o,v⟩) hf hi
  obtain ⟨hc',hu'⟩ := slot_inputs (c := ⟨o,v⟩) hf' hi
  cases b with
  | true => exact (hc'.mp (hc.mpr ⟨ho,ht⟩)).2
  | false => exact (hu'.mp (hu.mpr ⟨ho,ht⟩)).2

/-- Two views of a transaction are the same exactly if they find the same treasury outputs
behind its inputs. -/
theorem fillCtips_eq_iff (hsc : dbs'.sidechain = dbs.sidechain) (hf : h.fillCtips dbs u tx = .ok infos) :
    h.fillCtips dbs' u' tx = .ok infos ↔
      ∀ o ∈ tx.spent, treasuryAt dbs' u'.byOutpoint o = treasuryAt dbs u.byOutpoint o := by
  constructor
  · intro hf' o ho
    exact Option.ext (fun e =>
      ⟨treasuryAt_of_fillCtips hf' hf ho,treasuryAt_of_fillCtips hf hf' ho⟩)
  · intro heq
    obtain ⟨hform,hget⟩ := fillCtips_ok.mp hf
    have hin : ∀ s, dbs'.consolidatedInputs s tx.input = dbs.consolidatedInputs s tx.input ∧
        dbs'.unconsolidatedInputs u' s tx.input = dbs.unconsolidatedInputs u s tx.input :=
      fun s => inputs_congr s (fun i hi => heq _ (List.mem_map.mpr ⟨i,hi,rfl⟩))
    have hslot : ∀ s, slotInfo h dbs' u' tx s = slotInfo h dbs u tx s := by
      intro s
      unfold slotInfo addInputs
      rw [hsc,(hin s).1,(hin s).2]
    refine fillCtips_ok.mpr ⟨⟨?_,?_,?_⟩,fun s => by rw [hget,hslot]⟩
    · rw [hsc]
      exact hform.oneOutput
    · intro s
      rw [(hin s).1]
      exact hform.oneConsolidated s
    · intro s hs
      rw [(hin s).1,(hin s).2]
      exact hform.replaced s (by rw [← hslot,hs])

end Views

namespace BlockHandler

variable {h : BlockHandler} {dbs dbs' : Dbs} {tx : Transaction} {o : OutPoint}
  {infos : FinMap SidechainNumber TxCtipsInfo} {res : Option DepositsOrSuccessfulWithdrawal}
  {newCtips : UnconsolidatedCtips} {payout : Option (SidechainNumber × M6id)}

/-- The seen treasury outputs, with the one that an input spends. -/
def seeInput (dbs : Dbs) (u : UnconsolidatedCtips) (input : TxIn) : UnconsolidatedCtips :=
  match dbs.seenUnconsolidatedCtipOutputs.get? input.previousOutput with
  | some (s,value) => u.insert s ⟨input.previousOutput,value⟩
  | none => u

theorem seenUnconsolidated_eq (dbs : Dbs) (tx : Transaction) :
    seenUnconsolidated dbs tx = tx.input.foldl (seeInput dbs) .default := rfl

variable [Bitcoin]

omit [Bitcoin] in
/-- The seen treasury outputs that a transaction spends. -/
theorem seenUnconsolidated_get? (dbs : Dbs) (tx : Transaction) (o : OutPoint) :
    (seenUnconsolidated dbs tx).byOutpoint.get? o =
      if o ∈ tx.spent then dbs.seenUnconsolidatedCtipOutputs.get? o else none := by
  have main : ∀ (l : List TxIn) (u : UnconsolidatedCtips),
      (l.foldl (seeInput dbs) u).byOutpoint.get? o = if o ∈ l.map TxIn.previousOutput then
          (dbs.seenUnconsolidatedCtipOutputs.get? o).or (u.byOutpoint.get? o)
        else u.byOutpoint.get? o := by
    intro l
    induction l with
    | nil => simp
    | cons i l ih =>
      intro u
      rw [List.foldl_cons,ih,seeInput]
      cases hi : dbs.seenUnconsolidatedCtipOutputs.get? i.previousOutput with
      | none =>
        by_cases ho : o = i.previousOutput
        · subst ho
          simp [hi]
        · simp [ho]
      | some e =>
        obtain ⟨s,v⟩ := e
        simp only [UnconsolidatedCtips.byOutpoint_insert]
        by_cases ho : o = i.previousOutput
        · subst ho
          simp [hi]
        · simp [ho,Ne.symm ho]
  rw [seenUnconsolidated_eq,main]
  simp [UnconsolidatedCtips.default,Transaction.spent]

/-- The treasury outputs that the mempool records of a transaction, and the bundle that it pays. -/
def recordedOf (unconsolidated : UnconsolidatedCtips) :
    Option DepositsOrSuccessfulWithdrawal → UnconsolidatedCtips × Option (SidechainNumber × M6id)
  | none => (.default,none)
  | some (.m5Deposits _ _) => (unconsolidated,none)
  | some (.m6Withdrawal s m6id _ _) => (.default,some (s,m6id))

/-- What the mempool finds of a transaction that it accepts, and what it records. -/
structure Admitted (h : BlockHandler) (dbs : Dbs) (tx : Transaction)
    (infos : FinMap SidechainNumber TxCtipsInfo) (res : Option DepositsOrSuccessfulWithdrawal)
    (newCtips : UnconsolidatedCtips) (payout : Option (SidechainNumber × M6id)) : Prop where
  fill : h.fillCtips dbs.activeSidechains (seenUnconsolidated dbs tx) tx = .ok infos
  outcome : Outcome { h with requirePayableBundles := false } dbs.activeSidechains tx infos.toList res
  request : ∀ r, parseM8Tx tx = some r → dbs.currentChainTip = some r.prevMainchainBlockHash
  recorded : (newCtips,payout) =
    recordedOf (updateAll dbs.activeSidechains (seenUnconsolidated dbs tx) infos.toList) res

theorem validateTx_admitted {v : ValidatedTx} (hv : h.validateTx dbs tx = .ok v)
    (ha : acceptedCtips v = some (newCtips,payout)) :
    ∃ infos res, Admitted h dbs tx infos res newCtips payout := by
  have hrequest : ∀ r, parseM8Tx tx = some r → dbs.currentChainTip = some r.prevMainchainBlockHash :=
    fun r hr => validateTx_request hv (by rw [ha]; simp) hr
  obtain ⟨tip,htip,hv⟩ := Fallible.bind_ok.mp hv
  obtain ⟨_,-,hv⟩ := Fallible.bind_ok.mp hv
  have hhandled : ∀ {r u}, ({ h with requirePayableBundles := false } : BlockHandler).handleTransaction
      dbs.activeSidechains none (seenUnconsolidated dbs tx) tip tx = .ok (r,u) →
      ∃ infos res, h.fillCtips dbs.activeSidechains (seenUnconsolidated dbs tx) tx = .ok infos ∧
        Outcome { h with requirePayableBundles := false } dbs.activeSidechains tx infos.toList res ∧
        u = updateAll dbs.activeSidechains (seenUnconsolidated dbs tx) infos.toList ∧
        r = transactionResult tx res := by
    intro r u hr
    obtain ⟨⟨res,u'⟩,hm,hr⟩ := Fallible.bind_ok.mp hr
    obtain ⟨_,-,hr⟩ := Fallible.bind_ok.mp hr
    simp only [Fallible.pure_ok,Prod.mk.injEq] at hr
    obtain ⟨rfl,rfl⟩ := hr
    obtain ⟨infos,hfill,hout,hu⟩ := handleM5M6_ok hm
    exact ⟨infos,res,hfill,hout,hu,rfl⟩
  simp only at hv
  split at hv
  · rename_i u hx
    obtain ⟨infos,res,hfill,hout,-,hr⟩ := hhandled hx
    rw [Fallible.pure_ok] at hv
    subst hv
    refine ⟨infos,res,hfill,hout,hrequest,?_⟩
    cases res with
    | none => exact (Option.some.inj ha).symm
    | some res =>
      cases res with
      | m5Deposits deposits d => cases hr
      | m6Withdrawal s m6id n d => cases hr
  · rename_i event d u hx
    obtain ⟨infos,res,hfill,hout,hu,hr⟩ := hhandled hx
    obtain ⟨_,-,hv⟩ := Fallible.bind_ok.mp hv
    rw [Fallible.pure_ok] at hv
    subst hv
    refine ⟨infos,res,hfill,hout,hrequest,?_⟩
    cases res with
    | none => cases hr
    | some res =>
      cases res with
      | m5Deposits deposits d =>
        obtain ⟨rfl,-⟩ := Prod.mk.inj (Option.some.inj hr)
        rw [← hu]
        exact (Option.some.inj ha).symm
      | m6Withdrawal s m6id n d =>
        obtain ⟨rfl,-⟩ := Prod.mk.inj (Option.some.inj hr)
        exact (Option.some.inj ha).symm
  · split at hv
    · rw [Fallible.pure_ok] at hv
      subst hv
      cases ha
    · cases hv
    · cases hv

omit [Bitcoin] in
theorem updateAll_kept {dbs : ActiveSidechainDbs} {u : UnconsolidatedCtips}
    {l : List (SidechainNumber × TxCtipsInfo)}
    (hl : ∀ e ∈ l, Leaves dbs e → e.2.ctipOutput.outpoint ≠ o) {x : SidechainNumber × ℕ}
    (hx : (updateAll dbs u l).byOutpoint.get? o = some x) : u.byOutpoint.get? o = some x := by
  induction l using List.reverseRecOn with
  | nil => exact hx
  | append_singleton l e ih =>
    rw [updateAll_snoc,(updateUnconsolidated_get? dbs _ e o).2 (hl e (by simp))] at hx
    split at hx
    · cases hx
    · exact ih (fun e' he' => hl e' (List.mem_append_left _ he')) hx

namespace Admitted

variable (ha : Admitted h dbs tx infos res newCtips payout)
include ha

/-- What a transaction does not leave unconsolidated stays as it was seen. -/
theorem kept (ho : ∀ s info, infos.get? s = some info →
    isNewCtip dbs.activeSidechains s info = false → info.ctipOutput.outpoint ≠ o) :
    (newCtips.byOutpoint.get? o).or (dbs.seenUnconsolidatedCtipOutputs.get? o) =
      dbs.seenUnconsolidatedCtipOutputs.get? o := by
  have hrec := ha.recorded
  have hdefault : (UnconsolidatedCtips.default.byOutpoint.get? o) = none := by
    simp [UnconsolidatedCtips.default]
  cases res with
  | none =>
    obtain ⟨rfl,-⟩ := Prod.mk.inj hrec
    rw [hdefault,Option.none_or]
  | some res =>
    cases res with
    | m5Deposits deposits d =>
      obtain ⟨rfl,-⟩ := Prod.mk.inj hrec
      cases hx : (updateAll dbs.activeSidechains (seenUnconsolidated dbs tx) infos.toList).byOutpoint.get? o with
      | none => rw [Option.none_or]
      | some x =>
        have hold := updateAll_kept (fun e he => ho e.1 e.2 (FinMap.mem_toList.mp he)) hx
        rw [seenUnconsolidated_get?] at hold
        split at hold
        · rw [hold,Option.some_or]
        · cases hold
    | m6Withdrawal s m6id n d =>
      obtain ⟨rfl,-⟩ := Prod.mk.inj hrec
      rw [hdefault,Option.none_or]

/-- What it leaves unconsolidated is recorded. -/
theorem left (hself : ∀ o ∈ tx.spent, o.txid ≠ tx.computeTxid) {s : SidechainNumber}
    {info : TxCtipsInfo} (hi : infos.get? s = some info)
    (hn : isNewCtip dbs.activeSidechains s info = false) :
    newCtips.byOutpoint.get? info.ctipOutput.outpoint = some (s,info.ctipOutput.value) := by
  have hrec := ha.recorded
  have hout := ha.outcome
  have hget := (fillCtips_ok.mp ha.fill).2
  have hmem : (s,info) ∈ infos.toList := FinMap.mem_toList.mpr hi
  cases res with
  | none =>
    have hnil : infos.toList = [] := hout
    rw [hnil] at hmem
    cases hmem
  | some res =>
    cases res with
    | m5Deposits deposits d =>
      obtain ⟨rfl,-⟩ := Prod.mk.inj hrec
      have hfresh : ∀ o : OutPoint, o.txid = tx.computeTxid →
          (seenUnconsolidated dbs tx).byOutpoint.get? o = none := by
        intro o ho
        rw [seenUnconsolidated_get?,if_neg (fun hm => hself o hm ho)]
      have hslot : ∀ e ∈ infos.toList, slotInfo h dbs.activeSidechains (seenUnconsolidated dbs tx) tx e.1 =
          some e.2 := by
        intro e he
        rw [← hget e.1]
        exact FinMap.mem_toList.mp he
      refine (updateAll_get? (t := tx.computeTxid) (fun e he => slotInfo_txid (hslot e he)) ?_ ?_ hfresh
        _ _ _).mpr (.inr ⟨(s,info),hmem,hn,rfl,rfl⟩)
      · intro e he c hc hself'
        have hin : c.outpoint ∈ tx.spent := by
          obtain ⟨-,n,out,-,-,hinfo,-⟩ := slotInfo_output (hslot e he)
          rw [hinfo] at hc
          exact (mem_unconsolidatedInputs_treasuryAt.mp (mem_asSet.mp hc)).1
        exact hself _ hin hself'
      · exact slotInfos_outpoint_ne hslot
    | m6Withdrawal s m6id n d =>
      obtain ⟨info',hl,-,hm,-,-⟩ := hout
      rw [hl,List.mem_singleton] at hmem
      obtain ⟨rfl,rfl⟩ := Prod.mk.inj hmem
      obtain ⟨c,p,hw⟩ := makeM6_ok.mp hm
      rw [isNewCtip,hw.spendsCtip] at hn
      cases hn

end Admitted

theorem acceptTxWithPayout_ok {action : TxAcceptAction}
    (ha : h.acceptTxWithPayout dbs tx = .ok (action,payout,dbs')) :
    dbs'.activeSidechains = dbs.activeSidechains ∧ dbs'.currentChainTip = dbs.currentChainTip ∧
      match action with
      | .reject => dbs' = dbs
      | .accept _ _ => ∃ newCtips infos res, Admitted h dbs tx infos res newCtips payout ∧
        ∀ o, dbs'.seenUnconsolidatedCtipOutputs.get? o =
          (newCtips.byOutpoint.get? o).or (dbs.seenUnconsolidatedCtipOutputs.get? o) := by
  obtain ⟨v,hv,ha⟩ := Fallible.bind_ok.mp ha
  cases hacc : acceptedCtips v with
  | none =>
    simp only [hacc,Fallible.pure_ok,Prod.mk.injEq] at ha
    obtain ⟨rfl,-,rfl⟩ := ha
    exact ⟨rfl,rfl,rfl⟩
  | some p =>
    obtain ⟨newCtips,payout'⟩ := p
    simp only [hacc,Fallible.pure_ok,Prod.mk.injEq] at ha
    obtain ⟨rfl,rfl,rfl⟩ := ha
    obtain ⟨infos,res,hadm⟩ := validateTx_admitted hv hacc
    exact ⟨rfl,rfl,newCtips,infos,res,hadm,fun o => FinMap.get?_insertAll_toList ..⟩

end BlockHandler

end Bip300301Enforcer
