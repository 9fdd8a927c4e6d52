import Bip300301Enforcer.MempoolRequests
import Bip300301Enforcer.SuffixCompletion

/-! Transactions that the mempool accepts make a block that the validator accepts, as long as
both know alike about the treasury outputs that they spend. -/
namespace Bip300301Enforcer
open Lib Chain BlockHandler ActiveSidechainDbs

section Apply

variable [Bitcoin] {h : BlockHandler} {c : Chain} {coinbase : Transaction} {tip : ActiveSidechainDbs}
  {done : List Transaction} {acc : TxState} {L L₀ : Utxos} {tx : Transaction} {cur : Dbs}
  {infos : FinMap SidechainNumber TxCtipsInfo} {res : Option DepositsOrSuccessfulWithdrawal}
  {newCtips : UnconsolidatedCtips} {payout : Option (SidechainNumber × M6id)}
  {accepted : BmmCommitments} {parent hash : BlockHash}

/-- The bundle that is paid is not too old at the height of the block. -/
def InTime (h : BlockHandler) (height : ℕ) (tip : ActiveSidechainDbs)
    (payout : Option (SidechainNumber × M6id)) : Prop :=
  ∀ s m6id p info, payout = some (s,m6id) → tip.pendingM6ids.get? s = some p →
    p.get? m6id = some info → h.expired height (m6id,info) = false

theorem makeDeposit_other {dbs dbs' : ActiveSidechainDbs} {s : SidechainNumber} {info : TxCtipsInfo}
    {d : Option Deposit} (hd : makeDeposit dbs tx s info = .ok d) :
    ∃ d', makeDeposit dbs' tx s info = .ok d' := by
  unfold makeDeposit at hd ⊢
  split at hd
  · rename_i hlt
    obtain ⟨out,hout,hd⟩ := Fallible.bind_ok.mp hd
    obtain ⟨address,haddress,-⟩ := Fallible.bind_ok.mp hd
    rw [if_pos hlt]
    exact ⟨_,Fallible.bind_ok.mpr ⟨out,hout,Fallible.bind_ok.mpr ⟨address,haddress,rfl⟩⟩⟩
  · rename_i hlt
    rw [if_neg hlt]
    exact ⟨none,rfl⟩

theorem makeM6_of_handled {dbs : ActiveSidechainDbs} {u : UnconsolidatedCtips} {s : SidechainNumber}
    {info : TxCtipsInfo} (hr : ∃ r, h.handleM5M6 dbs u tx = .ok r)
    (hview : h.fillCtips dbs u tx = .ok infos) (hl : infos.toList = [(s,info)])
    (hlt : info.ctipOutput.value < info.treasuryValueIn) : ∃ d, h.makeM6 dbs tx s info = .ok d := by
  obtain ⟨⟨res,u'⟩,hr⟩ := hr
  obtain ⟨infos',hfill,hout,-⟩ := handleM5M6_ok hr
  obtain rfl := Except.ok.inj (hview.symm.trans hfill)
  cases res with
  | none =>
    have hnil : infos.toList = [] := hout
    rw [hl] at hnil
    cases hnil
  | some res =>
    cases res with
    | m5Deposits deposits d =>
      have hslot := (hout.2.1 (s,info) (by rw [hl]; simp)).1
      exact absurd hslot.le (Nat.not_le.mpr hlt)
    | m6Withdrawal s' m6id n d =>
      obtain ⟨info',hl',-,hmake,-⟩ := hout
      rw [hl,List.singleton_inj] at hl'
      obtain ⟨rfl,rfl⟩ := Prod.mk.inj hl'
      exact ⟨d,hmake⟩

section Withdrawal

variable (hb : BlockAfter h c coinbase tip done acc L)
  (hA : Backed h.params.opDrivechain L₀ (fun x => x ∈ c.txids) (fun x => x ∈ c.allTxids) tip)
  (hin : ∀ o ∈ tx.spent, ∃ out, L.get? o = some out)
include hb hA hin

theorem BlockAfter.pending_unpaid {u : UnconsolidatedCtips} {s : SidechainNumber}
    {info : TxCtipsInfo} {cc : Ctip} {p : PendingM6ids} (hfill : h.fillCtips tip u tx = .ok infos)
    (hi : infos.get? s = some info) (hcc : info.consolidatedCtipInput = some cc)
    (hp : tip.pendingM6ids.get? s = some p) :
    ∃ q, acc.dbs.pendingM6ids.get? s = some q ∧ ∀ m6id v, q.get? m6id = some v ↔
      p.get? m6id = some v ∧ (!h.expired c.length (m6id,v)) = true := by
  obtain ⟨htip,hspent⟩ := (hb.ctip_input hA hin hfill hi).mp hcc
  obtain ⟨out,hunspent⟩ := hin _ hspent
  obtain ⟨k,hidx⟩ := hA.index_ctip htip
  have hcurrent := hb.backed.current _ _ _ _ _ (hb.indexKept _ _ hidx) hunspent
  obtain ⟨q,hq,hcase⟩ := hb.pending s p hp
  have hentries := hcase.resolve_left (by
    rintro ⟨cc',hcc',hdone⟩
    obtain rfl := Option.some.inj (hcurrent.symm.trans hcc')
    exact hb.not_done_of_index hA hidx hdone)
  exact ⟨q,hq,fun m6id v => OrderMap.get?_filter hentries⟩

/-- A withdrawal that the block sees as the mempool did. -/
theorem BlockAfter.makesM6_iff {u : UnconsolidatedCtips} {s : SidechainNumber}
    {info : TxCtipsInfo} {d : Diff.M6} (hfill : h.fillCtips tip u tx = .ok infos)
    (hi : infos.get? s = some info)
    (hmake : ({ h with requirePayableBundles := false } : BlockHandler).makeM6 tip tx s info = .ok d)
    (hvotes : Payable h.thresholds.withdrawalBundleInclusionThreshold tip.pendingM6ids s
      d.removedPendingWithdrawal) :
    (∃ d', h.makeM6 acc.dbs tx s info = .ok d') ↔
      InTime h c.length tip (some (s,d.removedPendingWithdrawal)) := by
  obtain ⟨cc,p,hw⟩ := makeM6_ok.mp hmake
  have hpget := OrderMap.getFull_get? hw.position
  obtain ⟨q,hq,hqget⟩ := hb.pending_unpaid hA hin hfill hi hw.spendsCtip hw.pending
  constructor
  · rintro ⟨d',hmake'⟩ s' m6id' p' info' he hp' hinfo'
    obtain ⟨rfl,rfl⟩ := Prod.mk.inj (Option.some.inj he)
    obtain rfl := Option.some.inj (hw.pending.symm.trans hp')
    obtain ⟨cc₂,q₂,hw₂⟩ := makeM6_ok.mp hmake'
    obtain rfl := Option.some.inj (hq.symm.trans hw₂.pending)
    have hm6id := (Prod.mk.inj (Except.ok.inj (hw.m6id.symm.trans hw₂.m6id))).1
    have hget := OrderMap.getFull_get? hw₂.position
    rw [← hm6id] at hget
    obtain ⟨hpv,hfresh⟩ := (hqget _ _).mp hget
    rw [hinfo'] at hpv
    rw [Option.some.inj hpv]
    simpa using hfresh
  · intro htime
    have hfresh := htime s d.removedPendingWithdrawal p _ rfl hw.pending hpget
    obtain ⟨p',info',hp',hinfo',hv⟩ := hvotes
    obtain rfl := Option.some.inj (hw.pending.symm.trans hp')
    obtain rfl := Option.some.inj (hpget.symm.trans hinfo')
    obtain ⟨i,hpos⟩ := OrderMap.getFull_of_get? ((hqget _ _).mpr ⟨hpget,by rw [hfresh]; rfl⟩)
    refine ⟨⟨s,info.ctipOutput,d.removedPendingWithdrawal,i,d.removedPendingWithdrawalInfo⟩,
      makeM6_ok.mpr ⟨cc,q,?_⟩⟩
    exact ⟨rfl,rfl,hw.spendsCtip,hw.onlyTreasury,hw.vout,hw.m6id,hq,hpos,fun _ => hv⟩

/-- A transaction that the block sees as the mempool did can be applied to the treasuries exactly
if the bundle that it pays is not too old. -/
theorem BlockAfter.handles_iff (hadm : Admitted h cur tx infos res newCtips payout)
    (hcur : cur.activeSidechains = tip)
    (hview : h.fillCtips acc.dbs acc.unconsolidatedCtips tx = .ok infos)
    (hvotes : ∀ s m6id, payout = some (s,m6id) →
      Payable h.thresholds.withdrawalBundleInclusionThreshold tip.pendingM6ids s m6id) :
    (∃ r, h.handleM5M6 acc.dbs acc.unconsolidatedCtips tx = .ok r) ↔ InTime h c.length tip payout := by
  have hfill := hadm.fill
  have hout := hadm.outcome
  have hrec := hadm.recorded
  rw [hcur] at hfill hout hrec
  cases res with
  | none =>
    obtain ⟨-,rfl⟩ := Prod.mk.inj hrec
    have hnil : infos.toList = [] := hout
    refine iff_of_true ?_ (by simp [InTime])
    refine handleM5M6_succeeds hview (.inl (fun s info hi => ?_))
    have hmem : (s,info) ∈ infos.toList := FinMap.mem_toList.mpr hi
    rw [hnil] at hmem
    cases hmem
  | some res =>
    cases res with
    | m5Deposits deposits d =>
      obtain ⟨-,rfl⟩ := Prod.mk.inj hrec
      obtain ⟨-,hslots,-⟩ := hout
      refine iff_of_true ?_ (by simp [InTime])
      refine handleM5M6_succeeds hview (.inl (fun s info hi => ?_))
      obtain ⟨⟨hle,hcons,hdep⟩,-⟩ := hslots (s,info) (FinMap.mem_toList.mpr hi)
      obtain ⟨d',hd'⟩ : ∃ d', makeDeposit acc.dbs tx s info = .ok d' := makeDeposit_other hdep
      exact ⟨d',hle,hcons,hd'⟩
    | m6Withdrawal s m6id n d =>
      obtain ⟨-,rfl⟩ := Prod.mk.inj hrec
      obtain ⟨info,hl,hlt,hmake,rfl,-⟩ := hout
      have hi : infos.get? s = some info := FinMap.mem_toList.mp (by rw [hl]; simp)
      rw [← hb.makesM6_iff hA hin hfill hi hmake (hvotes s _ rfl)]
      constructor
      · exact fun hr => makeM6_of_handled hr hview hl hlt
      · rintro ⟨d',hd'⟩
        exact handleM5M6_succeeds hview (.inr ⟨s,info,d',hl,hlt,hd'⟩)

end Withdrawal

end Apply

/-- The block finds the same treasuries of a transaction as the mempool did. -/
structure JudgedAlike [Bitcoin] (h : BlockHandler) (st : TxStep) (e : Admission) : Prop where
  tx : st.tx = e.tx
  view : h.fillCtips st.before.dbs st.before.unconsolidatedCtips e.tx =
    h.fillCtips e.dbs.activeSidechains (seenUnconsolidated e.dbs e.tx) e.tx

/-- The mempool knows as much about the outputs that a transaction spends as a block in which
these come before it, and the bundle that it pays is not too old there. -/
structure Minable [Bitcoin] (h : BlockHandler) (dbs : Dbs) (height : ℕ) (earlier : List Transaction)
    (e : Admission) : Prop where
  known : ∀ o ∈ e.tx.spent, KnownAlike h dbs earlier o
  inTime : InTime h height dbs.activeSidechains e.payout

section Step

variable [Bitcoin] {h : BlockHandler} {c : Chain} {coinbase tx : Transaction}
  {done txs : List Transaction} {acc : TxState} {L L₀ : Utxos} {dbs cur cur' : Dbs} {used : Txid → Prop}
  {infos : FinMap SidechainNumber TxCtipsInfo} {res : Option DepositsOrSuccessfulWithdrawal}
  {newCtips : UnconsolidatedCtips} {payout : Option (SidechainNumber × M6id)}
  {accepted : BmmCommitments} {parent hash : BlockHash}

theorem BlockAfter.view_iff (hb : BlockAfter h c coinbase dbs.activeSidechains done acc L)
    (hA : Backed h.params.opDrivechain L₀ (fun x => x ∈ c.txids) (fun x => x ∈ c.allTxids)
      dbs.activeSidechains)
    (hm : MempoolAfter h used dbs done cur) (hin : ∀ o ∈ tx.spent, ∃ out, L.get? o = some out)
    (hused : ∀ x, usedTxids c coinbase done x → used x)
    (hfill : h.fillCtips cur.activeSidechains (seenUnconsolidated cur tx) tx = .ok infos) :
    h.fillCtips acc.dbs acc.unconsolidatedCtips tx = .ok infos ↔
      ∀ o ∈ tx.spent, KnownAlike h dbs done o := by
  rw [hm.active] at hfill
  rw [fillCtips_eq_iff hb.sidechain hfill]
  refine forall₂_congr (fun o ho => ?_)
  obtain ⟨out,hout⟩ := hin o ho
  rw [← treasuryAt_eq_iff hb hA hm hout (hused _ (hb.backed.outputs o out hout))]
  have hseen : treasuryAt dbs.activeSidechains (seenUnconsolidated cur tx).byOutpoint o =
      treasuryAt dbs.activeSidechains cur.seenUnconsolidatedCtipOutputs o := by
    unfold treasuryAt
    rw [seenUnconsolidated_get?,if_pos ho]
  rw [hseen]

omit [Bitcoin] in
theorem claims_request (hr : RequestsRead accepted parent (done.filterMap parseM8Tx) acc.bmmRequestSlots)
    (hslots : (((done++[tx]).filterMap parseM8Tx).map M8BmmRequest.sidechainNumber).Nodup)
    (hrequest : ∀ r, parseM8Tx tx = some r →
      accepted.get? r.sidechainNumber = some r.sidechainBlockHash ∧ r.prevMainchainBlockHash = parent) :
    (∃ r, handleM8 tx (some accepted) parent = .ok r) ∧
      ∃ slots, claimBmmSlot acc.bmmRequestSlots tx = .ok slots := by
  unfold handleM8 claimBmmSlot
  cases hp : parseM8Tx tx with
  | none => exact ⟨⟨_,rfl⟩,_,rfl⟩
  | some r =>
    obtain ⟨hacc,hparent⟩ := hrequest r hp
    have hnew : r.sidechainNumber ∉ acc.bmmRequestSlots := by
      rw [hr.slots,List.mem_reverse]
      intro hin
      rw [List.filterMap_append,List.map_append,List.nodup_append] at hslots
      exact hslots.2.2 _ hin _ (by simp [hp]) rfl
    simp only [hacc,hparent,hnew]
    exact ⟨⟨true,by simp⟩,_,rfl⟩

theorem BlockAfter.connects_iff (hb : BlockAfter h c coinbase dbs.activeSidechains done acc L)
    (hA : Backed h.params.opDrivechain L₀ (fun x => x ∈ c.txids) (fun x => x ∈ c.allTxids)
      dbs.activeSidechains)
    (hm : MempoolAfter h used dbs done cur) (hin : ∀ o ∈ tx.spent, ∃ out, L.get? o = some out)
    (hused : ∀ x, usedTxids c coinbase done x → used x)
    (hadm : Admitted h cur tx infos res newCtips payout) {conflictsWith : List Txid}
    (hvotes : ∀ s m6id, payout = some (s,m6id) → Payable
      h.thresholds.withdrawalBundleInclusionThreshold dbs.activeSidechains.pendingM6ids s m6id)
    (hm8 : (∃ r, handleM8 tx (some accepted) parent = .ok r) ∧
      ∃ slots, claimBmmSlot acc.bmmRequestSlots tx = .ok slots) :
    ((∃ acc', h.connectTx accepted parent hash acc tx = .ok acc') ∧
      h.fillCtips acc.dbs acc.unconsolidatedCtips tx = .ok infos) ↔
    Minable h dbs c.length done ⟨cur,tx,conflictsWith,payout⟩ := by
  rw [connectTx_iff]
  constructor
  · rintro ⟨⟨hr,-⟩,hview⟩
    exact ⟨(hb.view_iff hA hm hin hused hadm.fill).mp hview,
      (hb.handles_iff hA hin hadm hm.active hview hvotes).mp hr⟩
  · rintro ⟨hknown,htime⟩
    have hview := (hb.view_iff hA hm hin hused hadm.fill).mpr hknown
    exact ⟨⟨(hb.handles_iff hA hin hadm hm.active hview hvotes).mpr htime,hm8⟩,hview⟩

end Step

section Run

variable [Bitcoin] {h : BlockHandler} {c : Chain} {coinbase : Transaction} {done txs : List Transaction}
  {acc : TxState} {L L' L₀ : Utxos} {dbs cur : Dbs} {l : List Admission} {accepted : BmmCommitments}
  {parent hash : BlockHash}

theorem applied_cons {f : TxState → Transaction → Res TxState} {L₁ : Utxos} {e : Admission}
    {infos : FinMap SidechainNumber TxCtipsInfo} (hL : L.applyTx e.tx = some L₁)
    (hfill : h.fillCtips e.dbs.activeSidechains (seenUnconsolidated e.dbs e.tx) e.tx = .ok infos) :
    ((∃ acc', (e.tx::l.map Admission.tx).foldlM f acc = .ok acc') ∧
      List.Forall₂ (JudgedAlike h) (stepsFrom f acc L done (e.tx::l.map Admission.tx)) (e::l)) ↔
    ∃ acc₁, f acc e.tx = .ok acc₁ ∧
      h.fillCtips acc.dbs acc.unconsolidatedCtips e.tx = .ok infos ∧
      (∃ acc', (l.map Admission.tx).foldlM f acc₁ = .ok acc') ∧
      List.Forall₂ (JudgedAlike h) (stepsFrom f acc₁ L₁ (done++[e.tx]) (l.map Admission.tx)) l := by
  constructor
  · rintro ⟨⟨acc',hf⟩,hjudged⟩
    obtain ⟨acc₁,hc,hf⟩ := Fallible.bind_ok.mp (by simpa only [List.foldlM_cons] using hf)
    simp only [stepsFrom,hc,hL] at hjudged
    obtain ⟨hj,hjs⟩ := List.forall₂_cons.mp hjudged
    exact ⟨acc₁,hc,hj.view.trans hfill,⟨acc',hf⟩,hjs⟩
  · rintro ⟨acc₁,hc,hview,⟨acc',hf⟩,hjs⟩
    refine ⟨⟨acc',?_⟩,?_⟩
    · rw [List.foldlM_cons,hc,Fallible.ok_bind]
      exact hf
    · simp only [stepsFrom,hc,hL]
      exact .cons ⟨rfl,hview.trans hfill.symm⟩ hjs

/-- The rest of a block: all of it is applied, and seen as the mempool saw it, exactly if all
of it is minable. -/
theorem Admits.applied_iff (hA : Backed h.params.opDrivechain L₀ (fun x => x ∈ c.txids)
      (fun x => x ∈ c.allTxids) dbs.activeSidechains)
    (hnew : ∀ done tx rest, txs = done++tx::rest → ¬ usedTxids c coinbase done tx.computeTxid)
    (hrequests : ∀ r ∈ txs.filterMap parseM8Tx,
      accepted.get? r.sidechainNumber = some r.sidechainBlockHash ∧ r.prevMainchainBlockHash = parent)
    (hslots : ((txs.filterMap parseM8Tx).map M8BmmRequest.sidechainNumber).Nodup)
    (ha : Admits h (fun tx => ¬ usedTxids c coinbase txs tx.computeTxid) cur l)
    (hvotes : ∀ e ∈ l, ∀ s m6id, e.payout = some (s,m6id) → Payable
      h.thresholds.withdrawalBundleInclusionThreshold dbs.activeSidechains.pendingM6ids s m6id)
    (htxs : txs = done++l.map Admission.tx)
    (hb : BlockAfter h c coinbase dbs.activeSidechains done acc L)
    (hm : MempoolAfter h (usedTxids c coinbase txs) dbs done cur)
    (hr : RequestsRead accepted parent (done.filterMap parseM8Tx) acc.bmmRequestSlots)
    (hL : (l.map Admission.tx).foldlM Utxos.applyTx L = some L') :
    ((∃ acc', (l.map Admission.tx).foldlM (h.connectTx accepted parent hash) acc = .ok acc') ∧
      List.Forall₂ (JudgedAlike h)
        (stepsFrom (h.connectTx accepted parent hash) acc L done (l.map Admission.tx)) l) ↔
    AtEach (fun before e => Minable h dbs c.length (done++before.map Admission.tx) e) l := by
  have hused : ∀ {done rest : List Transaction}, txs = done++rest →
      ∀ x, usedTxids c coinbase done x → usedTxids c coinbase txs x := by
    rintro done rest hsplit x (hx | hx | hx)
    · exact .inl hx
    · exact .inr (.inl hx)
    · exact .inr (.inr (by rw [hsplit,List.map_append]; exact List.mem_append_left _ hx))
  induction ha generalizing done acc L with
  | done => exact iff_of_true ⟨⟨acc,rfl⟩,.nil⟩ .nil
  | other apart called rest ih =>
    have hdone : ∀ t ∈ done, usedTxids c coinbase txs t.computeTxid :=
      fun t ht => hused htxs _ (.inr (.inr (List.mem_map.mpr ⟨t,ht,rfl⟩)))
    exact ih hvotes htxs hb (hm.other hdone apart called) hr hL
  | @accept cur cur' tx conflictsWith weight payout l called rest ih =>
    rw [List.map_cons] at htxs hL
    rw [List.foldlM_cons] at hL
    obtain ⟨L₁,hL₁,hL⟩ := Option.bind_eq_some_iff.mp hL
    obtain ⟨-,hin,-⟩ := Utxos.applyTx_some hL₁
    obtain ⟨-,-,newCtips,infos,res,hadm,-⟩ := acceptTxWithPayout_ok called
    have hsnoc : txs = (done++[tx])++l.map Admission.tx := by simp [htxs]
    have hm8 : (∃ r, handleM8 tx (some accepted) parent = .ok r) ∧
        ∃ slots, claimBmmSlot acc.bmmRequestSlots tx = .ok slots := by
      refine claims_request hr ?_ (fun r hp => hrequests r ?_)
      · rw [hsnoc,List.filterMap_append,List.map_append,List.nodup_append] at hslots
        exact hslots.1
      · exact List.mem_filterMap.mpr ⟨tx,by simp [htxs],hp⟩
    have hfirst : ((∃ acc', h.connectTx accepted parent hash acc tx = .ok acc') ∧
        h.fillCtips acc.dbs acc.unconsolidatedCtips tx = .ok infos) ↔
        Minable h dbs c.length done ⟨cur,tx,conflictsWith,payout⟩ :=
      hb.connects_iff hA hm hin (hused htxs) hadm (hvotes _ (List.mem_cons_self ..)) hm8
    have hnext : ∀ acc', h.connectTx accepted parent hash acc tx = .ok acc' →
        h.fillCtips acc.dbs acc.unconsolidatedCtips tx = .ok infos →
        (((∃ acc'', (l.map Admission.tx).foldlM (h.connectTx accepted parent hash) acc' = .ok acc'') ∧
          List.Forall₂ (JudgedAlike h) (stepsFrom (h.connectTx accepted parent hash) acc' L₁
            (done++[tx]) (l.map Admission.tx)) l) ↔
        AtEach (fun before e =>
          Minable h dbs c.length (done++tx::before.map Admission.tx) e) l) := by
      intro acc' hc hview
      obtain ⟨infos',res',hd⟩ := connectTx_ok hc
      obtain rfl := Except.ok.inj (hview.symm.trans hd.fill)
      have hfill := hadm.fill
      rw [hm.active] at hfill
      have hfresh := hnew _ _ _ htxs
      have hread := hr.connectTx hc
      have hrest := ih (fun e he => hvotes e (List.mem_cons_of_mem _ he)) hsnoc
        (hb.step hA hd hfill hL₁ hfresh) (hm.accept hb hA hin hfresh called)
        (by rw [List.filterMap_append]; cases hp : parseM8Tx tx <;> simpa [hp] using hread) hL
      simpa [List.append_assoc] using hrest
    rw [AtEach.cons,List.map_nil,List.append_nil,← hfirst,List.map_cons,
      applied_cons (e := ⟨cur,tx,conflictsWith,payout⟩) hL₁ hadm.fill]
    constructor
    · rintro ⟨acc',hc,hview,hrest⟩
      exact ⟨⟨⟨acc',hc⟩,hview⟩,(hnext acc' hc hview).mp hrest⟩
    · rintro ⟨⟨⟨acc',hc⟩,hview⟩,hrest⟩
      exact ⟨acc',hc,hview,(hnext acc' hc hview).mpr hrest⟩

end Run

section Inactive

variable [Bitcoin] {h : BlockHandler} {u : UnconsolidatedCtips} {tx : Transaction} {dbs cur : Dbs}
  {infos : FinMap SidechainNumber TxCtipsInfo} {other : Transaction → Prop} {l : List Admission}

theorem fillCtips_inactive (hf : h.fillCtips .empty u tx = .ok infos) :
    infos = .empty ∧ ∀ o ∈ tx.spent, u.byOutpoint.get? o = none := by
  have hnone : ∀ s, infos.get? s = none := by
    intro s
    rw [(fillCtips_ok.mp hf).2 s,Option.eq_none_iff_forall_ne_some]
    intro info hi
    obtain ⟨hact,-⟩ := slotInfo_output hi
    simp [ActiveSidechainDbs.empty,FinMap.contains] at hact
  refine ⟨FinMap.ext (fun s => by rw [hnone,FinMap.get?_empty]),fun o ho => ?_⟩
  cases ht : treasuryAt .empty u.byOutpoint o with
  | none => exact (treasuryAt_none.mp ht).2
  | some e =>
    obtain ⟨b,s,v⟩ := e
    obtain ⟨info,hi⟩ := treasuryAt_slot hf ho ht
    rw [hnone] at hi
    cases hi

/-- Without active slots the mempool records nothing, and what it accepts spends nothing that is
recorded. -/
theorem Admits.inactive (ha : Admits h other cur l) (hcur : cur.activeSidechains = .empty)
    (hseen : ∀ o, cur.seenUnconsolidatedCtipOutputs.get? o = dbs.seenUnconsolidatedCtipOutputs.get? o) :
    ∀ e ∈ l, h.fillCtips .empty .default e.tx =
        h.fillCtips e.dbs.activeSidechains (seenUnconsolidated e.dbs e.tx) e.tx ∧
      ∀ o ∈ e.tx.spent, dbs.seenUnconsolidatedCtipOutputs.get? o = none := by
  have hkept : ∀ {cur : Dbs} {tx infos res newCtips payout}, cur.activeSidechains = .empty →
      Admitted h cur tx infos res newCtips payout → ∀ o,
      (newCtips.byOutpoint.get? o).or (cur.seenUnconsolidatedCtipOutputs.get? o) =
        cur.seenUnconsolidatedCtipOutputs.get? o := by
    intro cur tx infos res newCtips payout hcur hadm o
    have hfill := hadm.fill
    rw [hcur] at hfill
    refine hadm.kept (fun s info hi => ?_)
    rw [(fillCtips_inactive hfill).1] at hi
    cases hi
  induction ha with
  | done => simp
  | other apart called rest ih =>
    rename_i action _ _
    obtain ⟨hactive,-,haction⟩ := acceptTxWithPayout_ok called
    refine ih (hactive.trans hcur) (fun o => ?_)
    cases action with
    | reject => rw [haction,hseen]
    | accept _ _ =>
      obtain ⟨newCtips,infos,res,hadm,hget⟩ := haction
      rw [hget,hkept hcur hadm,hseen]
  | accept called rest ih =>
    obtain ⟨hactive,-,newCtips,infos,res,hadm,hget⟩ := acceptTxWithPayout_ok called
    have hfill := hadm.fill
    rw [hcur] at hfill
    obtain ⟨rfl,hnone⟩ := fillCtips_inactive hfill
    intro e he
    rcases List.mem_cons.mp he with rfl | he
    · refine ⟨?_,fun o ho => ?_⟩
      · rw [hadm.fill]
        refine (fillCtips_eq_iff rfl hfill).mpr (fun o ho => ?_)
        rw [treasuryAt_none.mpr ⟨FinMap.get?_empty o,hnone o ho⟩]
        exact treasuryAt_none.mpr ⟨FinMap.get?_empty o,FinMap.get?_empty o⟩
      have hunseen := hnone o ho
      rw [seenUnconsolidated_get?,if_pos ho,hseen] at hunseen
      exact hunseen
    · exact ih (hactive.trans hcur) (fun o => by rw [hget,hkept hcur hadm,hseen]) e he

theorem minable_inactive {n : ℕ} {earlier : List Transaction} {e : Admission}
    (hdbs : dbs.activeSidechains = .empty)
    (hnone : ∀ o ∈ e.tx.spent, dbs.seenUnconsolidatedCtipOutputs.get? o = none) :
    Minable h dbs n earlier e := by
  refine ⟨fun o ho => ⟨?_,fun _ => .inr (hnone o ho)⟩,?_⟩
  · rintro before t after - s v ⟨hact,-⟩
    rw [hdbs] at hact
    simp [ActiveSidechainDbs.empty,FinMap.contains] at hact
  · intro s m6id p info _ hp
    rw [hdbs] at hp
    simp [ActiveSidechainDbs.empty] at hp

theorem judgedAlike_inactive {f : TxState → Transaction → Res TxState} {acc : TxState} {L L' : Utxos}
    {done : List Transaction} (hf : ∀ tx, f acc tx = .ok acc)
    (hview : ∀ e ∈ l, h.fillCtips acc.dbs acc.unconsolidatedCtips e.tx =
      h.fillCtips e.dbs.activeSidechains (seenUnconsolidated e.dbs e.tx) e.tx)
    (hL : (l.map Admission.tx).foldlM Utxos.applyTx L = some L') :
    List.Forall₂ (JudgedAlike h) (stepsFrom f acc L done (l.map Admission.tx)) l := by
  induction l generalizing L done with
  | nil => exact .nil
  | cons e l ih =>
    rw [List.map_cons,List.foldlM_cons] at hL
    obtain ⟨L₁,hL₁,hL⟩ := Option.bind_eq_some_iff.mp hL
    simp only [List.map_cons,stepsFrom,hf,hL₁]
    exact .cons ⟨rfl,hview e (List.mem_cons_self ..)⟩
      (ih (fun e he => hview e (List.mem_cons_of_mem _ he)) hL)

end Inactive

section Block

variable [Bitcoin] {params : NetworkParams} {h : BlockHandler} {stale : Prop} {dbs dbs₁ : Dbs} {c : Chain}
  {block : Block} {coinbase : Transaction} {l : List Admission} {other : Transaction → Prop}

theorem blockAfter_nil {acc : TxState} {L : Utxos} {m : FinMap SidechainNumber PendingM6ids}
    {tip : ActiveSidechainDbs} (hb : StepBacked h c coinbase [] acc L)
    (hacc : acc.dbs = { tip with pendingM6ids := m })
    (hm : ∀ s p, tip.pendingM6ids.get? s = some p → ∃ q, m.get? s = some q ∧
      q.entries = p.entries.filter (fun e => !h.expired c.length e)) :
    BlockAfter h c coinbase tip [] acc L := by
  refine ⟨hb,List.nodup_nil,by simp,by rw [hacc],by simp,?_,?_,?_,?_,.nil,?_⟩
  · exact fun o e he => by rw [hacc]; exact he
  · exact fun o e he => .inr (by rw [hacc] at he; exact he)
  · exact fun s cc he => .inr (by rw [hacc] at he; exact he)
  · simp [hacc]
  · intro s p hp
    obtain ⟨q,hq,hkeep⟩ := hm s p hp
    exact ⟨q,by rw [hacc]; exact hq,.inr hkeep⟩

theorem Synced.partialConnectBlock_iff {V : Chain → Block → Prop} {txs : List Transaction}
    (hs : Synced h V stale dbs c) (hh : dbs.blockHashes.header.get? block.blockHash = some block.header)
    (hparent : block.header.prevBlockhash = c.parentHash) (htx : block.txdata = coinbase::txs) :
    (∃ r, h.partialConnectBlock dbs block = .ok r) ↔
      ∃ res, h.processBlock dbs.toConsensusDbs c.length block.header.prevBlockhash block.blockHash
        (dbs.blockHashes.diff.get? block.header.prevBlockhash) coinbase txs = .ok res ∧ True := by
  have hheight := BlockHashDbs.linked_height hs.headers ⟨hh,hparent,hs.linked⟩
  constructor
  · rintro ⟨⟨info,dbs'⟩,hp⟩
    obtain ⟨n,coinbase',txs',res,hacc,-,-⟩ := partialConnectBlock_ok.mp hp
    obtain ⟨rfl,rfl⟩ := List.cons.inj (htx.symm.trans hacc.txdata)
    obtain rfl := Option.some.inj (hheight.symm.trans hacc.height)
    exact ⟨res,hacc.processed,trivial⟩
  · rintro ⟨res,hres,-⟩
    refine ⟨(_,_),partialConnectBlock_ok.mpr ⟨c.length,coinbase,_,res,⟨?_,hheight,htx,hres⟩,rfl,rfl⟩⟩
    rw [hparent,hs.tip]
    rfl

theorem blockSteps_low {txs : List Transaction} {L₀ : Utxos}
    (hlow : c.length < h.params.bip300ActivationHeight) (htx : block.txdata = coinbase::txs)
    (hL₀ : c.utxos = some L₀) : h.blockSteps dbs c block =
      stepsFrom (h.connectTxAt c.length .empty block.header.prevBlockhash block.blockHash)
        ⟨dbs.activeSidechains,.default,[],[],[]⟩ (L₀.add coinbase) [] txs := by
  simp only [blockSteps,txSteps,htx,startOf,if_pos hlow,hL₀]

theorem blockSteps_high {txs : List Transaction} {L₀ : Utxos} {t₂ : ConsensusDbs}
    {accepted : BmmCommitments} {events : List BlockEvent} {d : Diff.Coinbase}
    (hhigh : h.params.bip300ActivationHeight ≤ c.length) (htx : block.txdata = coinbase::txs)
    (hL₀ : c.utxos = some L₀)
    (hc : h.connectCoinbase dbs.toConsensusDbs c.length block.header.prevBlockhash
      (dbs.blockHashes.diff.get? block.header.prevBlockhash) coinbase = .ok (t₂,accepted,events,d)) :
    h.blockSteps dbs c block =
      stepsFrom (h.connectTx accepted block.header.prevBlockhash block.blockHash)
        ⟨t₂.activeSidechains,.default,[],events,[]⟩ (L₀.add coinbase) [] txs := by
  have hstep : h.connectTxAt c.length accepted block.header.prevBlockhash block.blockHash =
      h.connectTx accepted block.header.prevBlockhash block.blockHash := by
    funext acc tx
    rw [connectTxAt,if_neg (Nat.not_lt.mpr hhigh)]
  simp only [blockSteps,txSteps,htx,startOf,if_neg (Nat.not_lt.mpr hhigh),hL₀,hc,Fallible.ok_bind]
  rw [← hstep]
  rfl

theorem Admits.judgedAlike_low {L L' : Utxos} {parent hash : BlockHash}
    (ha : Admits h other dbs l) (hempty : dbs.activeSidechains = .empty)
    (hlow : c.length < h.params.bip300ActivationHeight)
    (hL : (l.map Admission.tx).foldlM Utxos.applyTx L = some L') :
    List.Forall₂ (JudgedAlike h) (stepsFrom (h.connectTxAt c.length .empty parent hash)
      ⟨.empty,.default,[],[],[]⟩ L [] (l.map Admission.tx)) l ∧
    AtEach (fun before e => Minable h dbs c.length (before.map Admission.tx) e) l := by
  have hinactive := ha.inactive hempty (fun o => rfl)
  constructor
  · exact judgedAlike_inactive (fun tx => by rw [connectTxAt,if_pos hlow])
      (fun e he => (hinactive e he).1) hL
  · rintro before e after rfl
    exact minable_inactive hempty (hinactive e (by simp)).2

/-- Transactions that the mempool accepts one after another without conflicts, whose
withdrawals have enough votes, make a block whose coinbase does nothing but accept their BMM
requests. The validator accepts it, and finds the same treasuries of each transaction as the
mempool did, exactly if all of them are minable: each output that one spends was recorded by
the mempool if and only if the block leaves it unconsolidated, and no bundle that is paid is
too old at the height of the block. -/
theorem partialConnectBlock_admits_iff (params : NetworkParams) (dbs dbs₁ : Dbs) (c : Chain)
    (block : Block) (coinbase : Transaction) (l : List Admission)
    (hr : Reach (.new params) UtxoValid stale dbs c)
    (hfits : dbs.blockHashes.HeaderFits block.header c.length)
    (hst : storeHeader dbs block = some dbs₁) (hparent : block.header.prevBlockhash = c.parentHash)
    (htx : block.txdata = coinbase::l.map Admission.tx) (hvalid : UtxoValid c block)
    (hmessages : coinbase.messages.Perm
      ((l.filterMap (fun e => parseM8Tx e.tx)).map M8BmmRequest.accept))
    (ha : Admits (.new params)
      (fun tx => ¬ usedTxids c coinbase (l.map Admission.tx) tx.computeTxid) dbs l)
    (hconflicts : ∀ e ∈ l, ∀ e' ∈ l, e'.tx ≠ e.tx → e'.tx.computeTxid ∉ e.conflictsWith)
    (hvotes : ∀ e ∈ l, ∀ s m6id, e.payout = some (s,m6id) → Payable
      params.thresholds.withdrawalBundleInclusionThreshold dbs.activeSidechains.pendingM6ids s m6id) :
    ((∃ r, (BlockHandler.new params).partialConnectBlock dbs₁ block = .ok r) ∧
      List.Forall₂ (JudgedAlike (.new params)) ((BlockHandler.new params).blockSteps dbs₁ c block) l) ↔
    AtEach (fun before e => Minable (.new params) dbs c.length (before.map Admission.tx) e) l := by
  have hsync := hr.synced
  have hw := hsync.grown.wf.1
  obtain ⟨dbs₁',hst',hsync₁,hh₁,ht₁,hd₁⟩ := hsync.storeHeader hfits hparent
  obtain rfl := Option.some.inj (hst.symm.trans hst')
  obtain ⟨L₀,hL₀,hback⟩ : ChainBacked (.new params) c dbs.toConsensusDbs :=
    hsync.grown.backed hsync.valid
  obtain ⟨L',hL'⟩ := hvalid.spends
  have hL : (l.map Admission.tx).foldlM Utxos.applyTx (L₀.add coinbase) = some L' := by
    simpa [utxos,hL₀,Utxos.applyBlock,htx] using hL'
  rw [hsync₁.partialConnectBlock_iff hh₁ hparent htx,ht₁,hd₁]
  rcases Nat.lt_or_ge c.length (BlockHandler.new params).params.bip300ActivationHeight with hlow | hhigh
  · have hempty := hsync.grown.active_empty fresh_utxoValid (Nat.le_of_lt hlow)
    obtain ⟨hjudged,hminable⟩ := ha.judgedAlike_low hempty hlow hL
    rw [blockSteps_low hlow htx hL₀,ht₁,hempty]
    exact iff_of_true ⟨⟨_,by rw [processBlock,if_pos hlow],trivial⟩,hjudged⟩ hminable
  · have hids : block.newTxids = l.map (fun e => e.tx.computeTxid) := by
      simp [Block.newTxids,htx]
    obtain ⟨hcurrent,hslots⟩ := ha.requests (hids ▸ hvalid.txids.nodup) hconflicts
    obtain ⟨t₂,accepted,events,d,m,hc,haccepted,hactive,hkeep⟩ : ∃ t₂ accepted events d m,
        (BlockHandler.new params).connectCoinbase dbs.toConsensusDbs c.length
          block.header.prevBlockhash (dbs.blockHashes.diff.get? block.header.prevBlockhash) coinbase =
            .ok (t₂,accepted,events,d) ∧ _ :=
      connectCoinbase_accepts hw hmessages hslots
    obtain ⟨scan,t₁,hdone⟩ := connectCoinbase_ok hc
    have hcoin : coinbase.computeTxid ∉ c.txids := hvalid.txids.coinbase coinbase (by simp [htx])
    have hstart : BlockAfter (.new params) c coinbase dbs.activeSidechains []
        ⟨t₂.activeSidechains,.default,[],events,[]⟩ (L₀.add coinbase) :=
      blockAfter_nil (backed_coinbase hback hcoin (hdone.frame hw).1 (hdone.wf hw).2.tables rfl)
        hactive hkeep
    have hrequests : (l.map Admission.tx).filterMap parseM8Tx =
        l.filterMap (fun e => parseM8Tx e.tx) := List.filterMap_map ..
    rw [processBlock_iff (fun _ => True) hhigh hc,
      blockSteps_high hhigh htx hL₀ (by rw [ht₁,hd₁]; exact hc)]
    simp only [and_true]
    have hnew : ∀ done tx rest, l.map Admission.tx = done++tx::rest →
        ¬ usedTxids c coinbase done tx.computeTxid := fun done tx rest hsplit => hvalid.new_tx htx hsplit
    have hmempool : MempoolAfter (.new params) (usedTxids c coinbase (l.map Admission.tx)) dbs [] dbs :=
      ⟨rfl,by simp,fun o _ _ => rfl⟩
    have hread : RequestsRead accepted block.header.prevBlockhash [] [] :=
      ⟨rfl,List.nodup_nil,by simp,by simp⟩
    refine ha.applied_iff hback hnew ?_ (by rw [hrequests]; exact hslots) hvotes rfl hstart hmempool
      hread hL
    intro r hmem
    rw [hrequests] at hmem
    refine ⟨haccepted r hmem,?_⟩
    rw [hparent,parentHash,← hsync.tip,hcurrent r hmem,Option.getD_some]

end Block

section Sample

open Sample TreasurySample

instance [Bitcoin] (h : BlockHandler) : DecidableRel (JudgedAlike h) := fun st e =>
  decidable_of_iff (st.tx = e.tx ∧ h.fillCtips st.before.dbs st.before.unconsolidatedCtips e.tx =
      h.fillCtips e.dbs.activeSidechains (seenUnconsolidated e.dbs e.tx) e.tx)
    ⟨fun ⟨htx,hview⟩ => ⟨htx,hview⟩,fun hj => ⟨hj.tx,hj.view⟩⟩

def admitAll [Bitcoin] (h : BlockHandler) : Dbs → List Transaction → Option (List Admission)
  | _, [] => some []
  | dbs, tx::txs =>
    match h.acceptTxWithPayout dbs tx with
    | .ok (.accept conflictsWith _,payout,dbs') =>
      (admitAll h dbs' txs).map (fun l => ⟨dbs,tx,conflictsWith,payout⟩::l)
    | _ => none

theorem admits_of_admitAll [Bitcoin] {h : BlockHandler} {other : Transaction → Prop} {dbs : Dbs}
    {txs : List Transaction} {l : List Admission} (ha : admitAll h dbs txs = some l) :
    Admits h other dbs l ∧ l.map Admission.tx = txs := by
  induction txs generalizing dbs l with
  | nil =>
    obtain rfl := Option.some.inj ha
    exact ⟨.done,rfl⟩
  | cons tx txs ih =>
    unfold admitAll at ha
    split at ha
    · rename_i called
      obtain ⟨l',hl',rfl⟩ := Option.map_eq_some_iff.mp ha
      obtain ⟨hrest,htx⟩ := ih hl'
      exact ⟨.accept called hrest,by rw [List.map_cons,htx]⟩
    · cases ha

namespace MempoolSample

def fundings : Transaction := coinbaseWith 0 [[],[]]

def first : Transaction :=
  ⟨2,0,[.spending (fundings.outpoint 0)],[⟨100,treasuryScript⟩,⟨0,Script.newOpReturn [9]⟩]⟩

def second : Transaction :=
  ⟨2,0,[.spending (fundings.outpoint 1)],[⟨50,treasuryScript⟩,⟨0,Script.newOpReturn [9]⟩]⟩

def payout : Transaction :=
  ⟨2,0,[.spending (first.outpoint 0),.spending (second.outpoint 0)],[⟨110,treasuryScript⟩,⟨30,[0x51]⟩]⟩

def theft : Transaction := ⟨2,0,[.spending (first.outpoint 0)],[⟨100,[0x51]⟩]⟩

def contents : List (List Script × List Transaction) :=
  [([[],[]],[]),([m1Script 0 description],[])]++
  List.replicate 6 ([m2Script 0 (sha256d description)],[])++
  [([],[first]),([m3Script 0 bundle],[])]++
  List.replicate 5 ([m4Script [0]],[])

def blocks (n : ℕ) : List Block := blocksOn allZeros 0 (contents.take n)

def run (n : ℕ) : Dbs × Chain := Call.runAll handler UtxoValid (Call.connectAll (blocks n))

def next (n : ℕ) (txs : List Transaction) : Block :=
  blockOn (((blocks n).getLast?.map Block.blockHash).getD allZeros) (UInt32.ofNat n) [] txs

theorem reach_run (n : ℕ) (h : n = 8 ∨ n = 15) :
    Reach handler UtxoValid False (run n).1 (run n).2 :=
  Call.reach_runAll _ (by rcases h with rfl | rfl <;> decide)

/-- The validator before the next block, and its transactions as the mempool accepts them. -/
def admitted (n : ℕ) (txs : List Transaction) : Option (Dbs × List Admission) := do
  let dbs₁ ← storeHeader (run n).1 (next n txs)
  let l ← admitAll handler (run n).1 txs
  return (dbs₁,l)

theorem admitted_some {n : ℕ} {txs : List Transaction} {dbs₁ : Dbs} {l : List Admission}
    {other : Transaction → Prop} (h : admitted n txs = some (dbs₁,l)) :
    storeHeader (run n).1 (next n txs) = some dbs₁ ∧ Admits handler other (run n).1 l ∧
      l.map Admission.tx = txs := by
  unfold admitted at h
  simp only [bind,Option.bind_eq_some_iff] at h
  obtain ⟨dbs₁',hst,l',hl,heq⟩ := h
  obtain ⟨rfl,rfl⟩ := Prod.mk.inj (Option.some.inj heq)
  exact ⟨hst,admits_of_admitAll hl⟩

end MempoolSample

open MempoolSample

theorem partialConnectBlock_admits_iff_sample : ∃ dbs₁ l,
    admitted 15 [second,payout] = some (dbs₁,l) ∧ l.map Admission.payout = [none,some (0,bundle)] ∧
    (∃ r, handler.partialConnectBlock dbs₁ (next 15 [second,payout]) = .ok r) ∧
    AtEach (fun before e =>
      Minable handler (run 15).1 (run 15).2.length (before.map Admission.tx) e) l := by
  have hrun : (admitted 15 [second,payout]).map (fun r =>
      (r.2.map Admission.payout,r.2.map Admission.conflictsWith,
        (handler.partialConnectBlock r.1 (next 15 [second,payout])).isOk,
        decide (List.Forall₂ (JudgedAlike handler)
          (handler.blockSteps r.1 (run 15).2 (next 15 [second,payout])) r.2))) =
      some ([none,some (0,bundle)],[[],[]],true,true) := by decide +kernel
  obtain ⟨⟨dbs₁,l⟩,hadmitted,hcomputed⟩ := Option.map_eq_some_iff.mp hrun
  simp only [Prod.mk.injEq,decide_eq_true_eq] at hcomputed
  obtain ⟨hpayouts,hconflicts,hok,hjudged⟩ := hcomputed
  have hconnected := Fallible.exists_of_isOk hok
  obtain ⟨hst,hadmits,htxs⟩ := admitted_some hadmitted
  have hvotes : ∃ p info, (run 15).1.activeSidechains.pendingM6ids.get? 0 = some p ∧
      p.get? bundle = some info ∧ info.voteCount = 6 := by
    have hget : (((run 15).1.activeSidechains.pendingM6ids.get? 0).bind (fun p => p.get? bundle)).map
        PendingM6idInfo.voteCount = some 6 := by decide +kernel
    obtain ⟨info,hinfo,hcount⟩ := Option.map_eq_some_iff.mp hget
    obtain ⟨p,hp,hinfo⟩ := Option.bind_eq_some_iff.mp hinfo
    exact ⟨p,info,hp,hinfo,hcount⟩
  refine ⟨dbs₁,l,hadmitted,hpayouts,hconnected,?_⟩
  refine (partialConnectBlock_admits_iff handler.params (run 15).1 dbs₁ (run 15).2
    (next 15 [second,payout]) (coinbaseWith 15 []) l (reach_run 15 (.inr rfl)) (by decide +kernel) hst
    (by decide +kernel) (by rw [htxs]; rfl) (by decide +kernel) ?_ hadmits ?_ ?_).mp
      ⟨hconnected,hjudged⟩
  · have hnone : l.filterMap (fun e => parseM8Tx e.tx) = [] := by
      rw [← Function.comp_def parseM8Tx Admission.tx,← List.filterMap_map,htxs]
      decide +kernel
    rw [hnone]
    exact .nil
  · intro e he e' _ _
    have hmem : e.conflictsWith ∈ l.map Admission.conflictsWith := List.mem_map_of_mem he
    rw [hconflicts] at hmem
    rw [show e.conflictsWith = [] by simpa using hmem]
    exact List.not_mem_nil
  · intro e he s m6id hpaid
    have hmem : e.payout ∈ l.map Admission.payout := List.mem_map_of_mem he
    rw [hpayouts,hpaid] at hmem
    obtain ⟨rfl,rfl⟩ : s = 0 ∧ m6id = bundle := by simpa using hmem
    obtain ⟨p,info,hp,hinfo,hcount⟩ := hvotes
    exact ⟨p,info,hp,hinfo,by rw [hcount]; decide⟩

/-- A transaction that takes a treasury which an unconfirmed deposit opens is accepted by the
mempool, and the validator rejects the block with both. -/
theorem partialConnectBlock_admits_fails : Reach handler UtxoValid False (run 8).1 (run 8).2 ∧
    (run 8).1.blockHashes.HeaderFits (next 8 [first,theft]).header (run 8).2.length ∧
    (next 8 [first,theft]).header.prevBlockhash = (run 8).2.parentHash ∧
    UtxoValid (run 8).2 (next 8 [first,theft]) ∧ (next 8 [first,theft]).messages = [] ∧
    (next 8 [first,theft]).bmmRequests = [] ∧ ∃ dbs₁ l,
    storeHeader (run 8).1 (next 8 [first,theft]) = some dbs₁ ∧
    Admits handler (fun _ => False) (run 8).1 l ∧ l.map Admission.tx = [first,theft] ∧
    l.map Admission.conflictsWith = [[],[]] ∧ l.map Admission.payout = [none,none] ∧
    ¬ ∃ r, handler.partialConnectBlock dbs₁ (next 8 [first,theft]) = .ok r := by
  have hrun : (admitted 8 [first,theft]).map (fun r =>
      (r.2.map Admission.payout,r.2.map Admission.conflictsWith,
        (handler.partialConnectBlock r.1 (next 8 [first,theft])).isOk)) =
      some ([none,none],[[],[]],false) := by decide +kernel
  obtain ⟨⟨dbs₁,l⟩,hadmitted,hcomputed⟩ := Option.map_eq_some_iff.mp hrun
  simp only [Prod.mk.injEq] at hcomputed
  obtain ⟨hpayouts,hconflicts,hfails⟩ := hcomputed
  obtain ⟨hst,hadmits,htxs⟩ := admitted_some hadmitted
  refine ⟨reach_run 8 (.inl rfl),by decide +kernel,by decide +kernel,by decide +kernel,
    by decide +kernel,by decide +kernel,dbs₁,l,hst,hadmits,htxs,hconflicts,hpayouts,?_⟩
  rintro ⟨r,hok⟩
  rw [hok] at hfails
  cases hfails

end Sample

end Bip300301Enforcer
