import Bip300301Enforcer.Lib.AtEach
import Bip300301Enforcer.MempoolViews
import Bip300301Enforcer.SuffixRead

/-! Transactions that the mempool accepts one after another, and a block that applies them in
the same order. -/
namespace Bip300301Enforcer
open Lib Chain BlockHandler ActiveSidechainDbs

/-- A transaction that the mempool accepts, and the state before it. -/
structure Admission where
  dbs : Dbs
  tx : Transaction
  conflictsWith : List Txid
  payout : Option (SidechainNumber × M6id)

section Definitions

variable [Bitcoin] (h : BlockHandler)

/-- The mempool accepts transactions in this order. In between it may be asked about others. -/
inductive Admits (other : Transaction → Prop) : Dbs → List Admission → Prop
  | done {dbs : Dbs} : Admits other dbs []
  | other {dbs dbs' : Dbs} {tx : Transaction} {action : TxAcceptAction}
      {payout : Option (SidechainNumber × M6id)} {l : List Admission} (apart : other tx)
      (called : h.acceptTxWithPayout dbs tx = .ok (action,payout,dbs'))
      (rest : Admits other dbs' l) : Admits other dbs l
  | accept {dbs dbs' : Dbs} {tx : Transaction} {conflictsWith : List Txid} {weight : ℕ}
      {payout : Option (SidechainNumber × M6id)} {l : List Admission}
      (accepted : h.acceptTxWithPayout dbs tx = .ok (.accept conflictsWith weight,payout,dbs'))
      (rest : Admits other dbs' l) : Admits other dbs (⟨dbs,tx,conflictsWith,payout⟩::l)

def MakesTreasury (dbs : ActiveSidechainDbs) (tx : Transaction) (o : OutPoint) (s : SidechainNumber)
    (v : ℕ) : Prop :=
  dbs.sidechain.contains s = true ∧ ∃ script, (o,⟨v,script⟩) ∈ tx.created ∧
    h.params.opDrivechain.parse script = some s

/-- After these transactions, this one leaves its treasury output of a slot unconsolidated: it
does not spend the ctip of the slot, and there is one. -/
def LeavesTreasury (dbs : ActiveSidechainDbs) (before : List Transaction) (tx : Transaction)
    (s : SidechainNumber) : Prop :=
  match dbs.ctip.get? s with
  | some c => c.outpoint ∉ tx.spent
  | none => ∃ t ∈ before, ∃ o v, MakesTreasury h dbs t o s v

/-- The mempool knows as much about an outpoint as a block with these transactions: a treasury
output of one of them is left unconsolidated and is recorded, because its slot has a ctip at
the tip or because it was recorded before, and no other outpoint is recorded that has not been
a ctip. -/
structure KnownAlike (dbs : Dbs) (earlier : List Transaction) (o : OutPoint) : Prop where
  unconfirmed : AtEach (fun before t => ∀ s v, MakesTreasury h dbs.activeSidechains t o s v →
    LeavesTreasury h dbs.activeSidechains before t s ∧
      (dbs.activeSidechains.ctip.contains s = true ∨
        dbs.seenUnconsolidatedCtipOutputs.get? o = some (s,v))) earlier
  others : (∀ t ∈ earlier, ∀ s v, ¬ MakesTreasury h dbs.activeSidechains t o s v) →
    dbs.activeSidechains.ctipOutpointToValueSeq.contains o = true ∨
      dbs.seenUnconsolidatedCtipOutputs.get? o = none

end Definitions

namespace Transaction

variable [Bitcoin]

theorem mem_created {tx : Transaction} {o : OutPoint} {out : TxOut} :
    (o,out) ∈ tx.created ↔ o.txid = tx.computeTxid ∧ tx.output[o.vout]? = some out := by
  unfold created outpoint
  rw [List.mem_map]
  constructor
  · rintro ⟨⟨out',n⟩,hz,he⟩
    obtain ⟨rfl,rfl⟩ := Prod.mk.inj he
    exact ⟨rfl,by simpa [List.mem_zipIdx_iff_getElem?] using hz⟩
  · rintro ⟨ht,hout⟩
    obtain ⟨t,n⟩ := o
    simp only at ht hout
    exact ⟨(out,n),by simpa [List.mem_zipIdx_iff_getElem?] using hout,by rw [ht]⟩

end Transaction

section Makes

variable [Bitcoin] {h : BlockHandler} {dbs : ActiveSidechainDbs} {u : UnconsolidatedCtips}
  {tx : Transaction} {infos : FinMap SidechainNumber TxCtipsInfo} {o : OutPoint}
  {s : SidechainNumber} {v : ℕ}

theorem MakesTreasury.txid (hm : MakesTreasury h dbs tx o s v) : o.txid = tx.computeTxid := by
  obtain ⟨-,script,hc,-⟩ := hm
  exact (Transaction.mem_created.mp hc).1

theorem makesTreasury_iff_output : MakesTreasury h dbs tx o s v ↔ dbs.sidechain.contains s = true ∧
    o.txid = tx.computeTxid ∧ ∃ out, tx.output[o.vout]? = some out ∧ out.value = v ∧
      h.params.opDrivechain.parse out.scriptPubkey = some s := by
  constructor
  · rintro ⟨hact,script,hc,hp⟩
    obtain ⟨ht,hout⟩ := Transaction.mem_created.mp hc
    exact ⟨hact,ht,_,hout,rfl,hp⟩
  · rintro ⟨hact,ht,out,hout,rfl,hp⟩
    exact ⟨hact,out.scriptPubkey,Transaction.mem_created.mpr ⟨ht,hout⟩,hp⟩

theorem makesTreasury_iff (hf : h.fillCtips dbs u tx = .ok infos) :
    MakesTreasury h dbs tx o s v ↔ ∃ info, infos.get? s = some info ∧ info.ctipOutput = ⟨o,v⟩ := by
  obtain ⟨hform,hget⟩ := fillCtips_ok.mp hf
  rw [makesTreasury_iff_output,hget s]
  constructor
  · rintro ⟨hact,ht,out,hout,rfl,hp⟩
    have hmem : (out,o.vout) ∈ h.params.opDrivechain.slotOutputs tx.output.zipIdx s := by
      refine List.mem_filter.mpr ⟨by simpa [List.mem_zipIdx_iff_getElem?] using hout,?_⟩
      simpa using hp
    obtain ⟨info,hi,hco⟩ := slotInfo_of_mem (u := u) hact (hform.oneOutput s hact) hmem
    exact ⟨info,hi,by rw [hco,← ht]⟩
  · rintro ⟨info,hi,hco⟩
    obtain ⟨hact,n,out,hout,hp,rfl,-⟩ := slotInfo_output hi
    obtain ⟨rfl,rfl⟩ := Ctip.mk.inj hco
    exact ⟨hact,rfl,out,hout,rfl,hp⟩

end Makes

section After

variable [Bitcoin]

/-- A block after some of its transactions, beside the tip that it is on. -/
structure BlockAfter (h : BlockHandler) (c : Chain) (coinbase : Transaction) (tip : ActiveSidechainDbs)
    (done : List Transaction) (acc : TxState) (L : Utxos) : Prop where
  backed : StepBacked h c coinbase done acc L
  nodup : (done.map Transaction.computeTxid).Nodup
  new : ∀ t ∈ done, t.computeTxid ∉ c.txids
  sidechain : acc.dbs.sidechain = tip.sidechain
  outputs : ∀ t ∈ done, ∀ o out, o.txid = t.computeTxid → L.get? o = some out →
    t.output[o.vout]? = some out
  /-- The index has grown by outputs of these transactions. -/
  indexKept : ∀ o e, tip.ctipOutpointToValueSeq.get? o = some e →
    acc.dbs.ctipOutpointToValueSeq.get? o = some e
  indexNew : ∀ o e, acc.dbs.ctipOutpointToValueSeq.get? o = some e →
    o.txid ∈ done.map Transaction.computeTxid ∨ tip.ctipOutpointToValueSeq.get? o = some e
  ctipNew : ∀ s cc, acc.dbs.ctip.get? s = some cc →
    cc.outpoint.txid ∈ done.map Transaction.computeTxid ∨ tip.ctip.get? s = some cc
  hasCtip : ∀ s, acc.dbs.ctip.contains s = true ↔ tip.ctip.contains s = true ∨
    ∃ t ∈ done, ∃ o v, MakesTreasury h tip t o s v
  leaves : AtEach (fun before t => ∀ o s v, MakesTreasury h tip t o s v →
    (acc.dbs.ctipOutpointToValueSeq.get? o = none ↔ LeavesTreasury h tip before t s)) done
  /-- No bundle of a slot was paid unless it has a new ctip. -/
  pending : ∀ s p, tip.pendingM6ids.get? s = some p → ∃ q, acc.dbs.pendingM6ids.get? s = some q ∧
    ((∃ cc, acc.dbs.ctip.get? s = some cc ∧ cc.outpoint.txid ∈ done.map Transaction.computeTxid) ∨
      q.entries = p.entries.filter (fun e => !h.expired c.length e))

structure MempoolAfter (h : BlockHandler) (used : Txid → Prop) (dbs : Dbs) (done : List Transaction)
    (cur : Dbs) : Prop where
  active : cur.activeSidechains = dbs.activeSidechains
  recorded : ∀ t ∈ done, ∀ o s v, MakesTreasury h dbs.activeSidechains t o s v →
    LeavesTreasury h dbs.activeSidechains [] t s →
      cur.seenUnconsolidatedCtipOutputs.get? o = some (s,v)
  unrecorded : ∀ o, used o.txid → (∀ t ∈ done, ∀ s v, MakesTreasury h dbs.activeSidechains t o s v →
    ¬ LeavesTreasury h dbs.activeSidechains [] t s) →
      cur.seenUnconsolidatedCtipOutputs.get? o = dbs.seenUnconsolidatedCtipOutputs.get? o

variable {h : BlockHandler} {c : Chain} {coinbase : Transaction} {tip : ActiveSidechainDbs}
  {done : List Transaction} {acc acc' : TxState} {L L' L₀ : Utxos} {tx : Transaction}
  {infos : FinMap SidechainNumber TxCtipsInfo} {u : UnconsolidatedCtips} {o : OutPoint}
  {s : SidechainNumber} {v : ℕ}

theorem leavesTreasury_nil : LeavesTreasury h tip [] tx s ↔
    ∃ cc, tip.ctip.get? s = some cc ∧ cc.outpoint ∉ tx.spent := by
  unfold LeavesTreasury
  cases tip.ctip.get? s <;> simp

theorem leavesTreasury_of_contains (hc : tip.ctip.contains s = true) {before : List Transaction} :
    LeavesTreasury h tip before tx s ↔ LeavesTreasury h tip [] tx s := by
  obtain ⟨cc,hcc⟩ := (FinMap.contains_iff _ _).mp hc
  simp only [LeavesTreasury,hcc]

namespace BlockAfter

variable (hb : BlockAfter h c coinbase tip done acc L)
  (hA : Backed h.params.opDrivechain L₀ (fun x => x ∈ c.txids) (fun x => x ∈ c.allTxids) tip)
include hb hA

theorem not_done_of_index {e : SidechainNumber × ℕ × ℕ}
    (hi : tip.ctipOutpointToValueSeq.get? o = some e) : o.txid ∉ done.map Transaction.computeTxid := by
  intro hm
  obtain ⟨t,ht,he⟩ := List.mem_map.mp hm
  have hnone : tip.ctipOutpointToValueSeq.get? o = none :=
    index_none_of_fresh hA.indexed hA.madeBy (by rw [← he]; exact hb.new t ht)
  rw [hi] at hnone
  cases hnone

theorem ctip_input (hin : ∀ o ∈ tx.spent, ∃ out, L.get? o = some out)
    (hf : h.fillCtips tip u tx = .ok infos) {info : TxCtipsInfo} (hi : infos.get? s = some info)
    {cc : Ctip} : info.consolidatedCtipInput = some cc ↔
      tip.ctip.get? s = some cc ∧ cc.outpoint ∈ tx.spent := by
  rw [(slot_inputs hf hi).1,treasuryAt_ctip]
  constructor
  · rintro ⟨ho,n,hidx⟩
    obtain ⟨out,hout⟩ := hin _ ho
    have hcur := hb.backed.current _ _ _ _ _ (hb.indexKept _ _ hidx) hout
    exact ⟨(hb.ctipNew _ _ hcur).resolve_left (hb.not_done_of_index hA hidx),ho⟩
  · rintro ⟨hc,ho⟩
    exact ⟨ho,hA.index_ctip hc⟩

theorem isNewCtip_tip (hin : ∀ o ∈ tx.spent, ∃ out, L.get? o = some out)
    (hf : h.fillCtips tip u tx = .ok infos) {info : TxCtipsInfo} (hi : infos.get? s = some info) :
    isNewCtip tip s info = false ↔ LeavesTreasury h tip [] tx s := by
  have hinput : ∀ cc, info.consolidatedCtipInput = some cc ↔
      tip.ctip.get? s = some cc ∧ cc.outpoint ∈ tx.spent := fun cc => hb.ctip_input hA hin hf hi
  rw [leavesTreasury_nil,isNewCtip,Bool.or_eq_false_iff,Bool.not_eq_false',FinMap.contains_iff,
    Option.isSome_eq_false_iff,Option.isNone_iff_eq_none]
  constructor
  · rintro ⟨hnone,cc,hcc⟩
    refine ⟨cc,hcc,fun ho => ?_⟩
    rw [(hinput cc).mpr ⟨hcc,ho⟩] at hnone
    cases hnone
  · rintro ⟨cc,hcc,ho⟩
    refine ⟨Option.eq_none_iff_forall_ne_some.mpr (fun cc' he => ?_),cc,hcc⟩
    obtain ⟨hcc',ho'⟩ := (hinput cc').mp he
    obtain rfl := Option.some.inj (hcc.symm.trans hcc')
    exact ho ho'

/-- The same within the block, if the block sees the transaction as the mempool does. -/
theorem isNewCtip_block (hin : ∀ o ∈ tx.spent, ∃ out, L.get? o = some out)
    (hf : h.fillCtips tip u tx = .ok infos) {info : TxCtipsInfo} (hi : infos.get? s = some info) :
    isNewCtip acc.dbs s info = false ↔ LeavesTreasury h tip done tx s := by
  have hinput : ∀ cc, info.consolidatedCtipInput = some cc ↔
      tip.ctip.get? s = some cc ∧ cc.outpoint ∈ tx.spent := fun cc => hb.ctip_input hA hin hf hi
  rw [isNewCtip,Bool.or_eq_false_iff,Bool.not_eq_false',hb.hasCtip,LeavesTreasury,
    Option.isSome_eq_false_iff,Option.isNone_iff_eq_none]
  cases hc : tip.ctip.get? s with
  | some cc =>
    have hcontains : tip.ctip.contains s = true := (FinMap.contains_iff _ _).mpr ⟨cc,hc⟩
    simp only [hcontains,true_or,and_true]
    constructor
    · intro hnone ho
      rw [(hinput cc).mpr ⟨hc,ho⟩] at hnone
      cases hnone
    · intro ho
      refine Option.eq_none_iff_forall_ne_some.mpr (fun cc' he => ?_)
      obtain ⟨hcc',ho'⟩ := (hinput cc').mp he
      obtain rfl := Option.some.inj (hc.symm.trans hcc')
      exact ho ho'
  | none =>
    have hcontains : tip.ctip.contains s ≠ true := by
      rw [Ne,FinMap.contains_iff,hc]
      simp
    have hnone : info.consolidatedCtipInput = none := by
      refine Option.eq_none_iff_forall_ne_some.mpr (fun cc' he => ?_)
      obtain ⟨hcc',-⟩ := (hinput cc').mp he
      rw [hc] at hcc'
      cases hcc'
    simp only [hnone,hcontains,Bool.false_eq_true,false_or,true_and]

omit hA in
theorem treasuryAt_left {before after : List Transaction} {t : Transaction} {out : TxOut}
    (hsplit : done = before++t::after) (hm : MakesTreasury h tip t o s v)
    (hout : L.get? o = some out) (hleft : LeavesTreasury h tip before t s) :
    treasuryAt acc.dbs acc.unconsolidatedCtips.byOutpoint o = some (false,s,v) := by
  have ht : t ∈ done := by simp [hsplit]
  have hnone := (hb.leaves before t after hsplit o s v hm).mpr hleft
  obtain ⟨hact,htx,out',hout',hv,hp⟩ := makesTreasury_iff_output.mp hm
  obtain rfl := Option.some.inj (hout'.symm.trans (hb.outputs t ht o out htx hout))
  refine treasuryAt_unconsolidated.mpr ⟨hnone,(hb.backed.unconsolidated o s v).mpr ?_⟩
  exact ⟨List.mem_map.mpr ⟨t,ht,htx.symm⟩,by rw [hb.sidechain,hact],hnone,out',hout,hv,hp⟩

omit hA in
theorem treasuryAt_ctip_of_not_left {before after : List Transaction} {t : Transaction}
    (hsplit : done = before++t::after) (hm : MakesTreasury h tip t o s v)
    (hleft : ¬ LeavesTreasury h tip before t s) :
    ∃ e, treasuryAt acc.dbs acc.unconsolidatedCtips.byOutpoint o = some (true,e) := by
  cases hi : acc.dbs.ctipOutpointToValueSeq.get? o with
  | none => exact absurd ((hb.leaves before t after hsplit o s v hm).mp hi) hleft
  | some e => exact ⟨(e.1,e.2.1),treasuryAt_ctip.mpr ⟨e.2.2,hi⟩⟩

omit hA in
/-- An output that is neither in the index at the tip nor a treasury output of the block is
none within the block. -/
theorem treasuryAt_other {out : TxOut} (hout : L.get? o = some out)
    (hi : tip.ctipOutpointToValueSeq.get? o = none)
    (hno : ∀ t ∈ done, ∀ s v, ¬ MakesTreasury h tip t o s v) :
    treasuryAt acc.dbs acc.unconsolidatedCtips.byOutpoint o = none := by
  have hmakes : ∀ s v out', o.txid ∈ done.map Transaction.computeTxid →
      acc.dbs.sidechain.contains s = true → L.get? o = some out' → out'.value = v →
      h.params.opDrivechain.parse out'.scriptPubkey = some s → False := by
    intro s v out' hdone hact hout' hv hp
    obtain ⟨t,ht,htx⟩ := List.mem_map.mp hdone
    refine hno t ht s v (makesTreasury_iff_output.mpr ⟨?_,htx.symm,out',?_,hv,hp⟩)
    · rw [← hb.sidechain,hact]
    · exact hb.outputs t ht o out' htx.symm hout'
  rw [treasuryAt_none]
  constructor
  · cases he : acc.dbs.ctipOutpointToValueSeq.get? o with
    | none => rfl
    | some e =>
      obtain ⟨s,v,n⟩ := e
      rcases hb.indexNew o _ he with hdone | htip
      · have hcur := hb.backed.current _ _ _ _ _ he hout
        obtain ⟨out',hout',hv,hp⟩ := hb.backed.ctip _ _ hcur
        have hact := hb.backed.tables.ctipActive s ((FinMap.contains_iff _ _).mpr ⟨_,hcur⟩)
        exact (hmakes s v out' hdone hact hout' hv hp).elim
      · rw [hi] at htip
        cases htip
  · cases he : acc.unconsolidatedCtips.byOutpoint.get? o with
    | none => rfl
    | some e =>
      obtain ⟨s,v⟩ := e
      obtain ⟨hdone,hact,-,out',hout',hv,hp⟩ := (hb.backed.unconsolidated o s v).mp he
      exact (hmakes s v out' hdone hact hout' hv hp).elim

end BlockAfter

theorem BlockAfter.eq_of_txid (hb : BlockAfter h c coinbase tip done acc L) {t t' : Transaction}
    (ht : t ∈ done) (ht' : t' ∈ done) (he : t.computeTxid = t'.computeTxid) : t = t' :=
  List.inj_on_of_nodup_map hb.nodup ht ht' he

theorem BlockAfter.makesTreasury_unique (hb : BlockAfter h c coinbase tip done acc L)
    {before before' after after' : List Transaction} {t t' : Transaction} {s s' : SidechainNumber}
    {v v' : ℕ} (hsplit : done = before++t::after) (hmakes : MakesTreasury h tip t o s v)
    (hsplit' : done = before'++t'::after') (hmakes' : MakesTreasury h tip t' o s' v') :
    before' = before ∧ t' = t ∧ s' = s ∧ v' = v := by
  have heq : t' = t := hb.eq_of_txid (by simp [hsplit']) (by simp [hsplit])
    (by rw [← hmakes'.txid,hmakes.txid])
  subst heq
  have hnodup := hb.nodup.of_map
  rw [hsplit,List.nodup_middle,List.nodup_cons,List.mem_append,not_or] at hnodup
  obtain ⟨hbefore,-,-⟩ := (List.append_cons_inj_of_notMem hnodup.1.1 hnodup.1.2).mp
    (hsplit.symm.trans hsplit')
  obtain ⟨-,-,out₁,h₁,rfl,hp₁⟩ := makesTreasury_iff_output.mp hmakes
  obtain ⟨-,-,out₂,h₂,rfl,hp₂⟩ := makesTreasury_iff_output.mp hmakes'
  obtain rfl := Option.some.inj (h₁.symm.trans h₂)
  exact ⟨hbefore.symm,rfl,Option.some.inj (hp₂.symm.trans hp₁),rfl⟩

theorem BlockAfter.knownAlike_made {dbs : Dbs} {before after : List Transaction} {t : Transaction}
    {s : SidechainNumber} {v : ℕ} (hb : BlockAfter h c coinbase dbs.activeSidechains done acc L)
    (hsplit : done = before++t::after) (hmakes : MakesTreasury h dbs.activeSidechains t o s v) :
    KnownAlike h dbs done o ↔ LeavesTreasury h dbs.activeSidechains before t s ∧
      (dbs.activeSidechains.ctip.contains s = true ∨
        dbs.seenUnconsolidatedCtipOutputs.get? o = some (s,v)) := by
  constructor
  · intro hk
    exact hk.unconfirmed before t after hsplit s v hmakes
  · intro hk
    refine ⟨fun before' t' after' hsplit' s' v' hmakes' => ?_,fun hno => ?_⟩
    · obtain ⟨rfl,rfl,rfl,rfl⟩ := hb.makesTreasury_unique hsplit hmakes hsplit' hmakes'
      exact hk
    · exact (hno t (by simp [hsplit]) s v hmakes).elim

section BlockStep

variable {res : Option DepositsOrSuccessfulWithdrawal}
  (hb : BlockAfter h c coinbase tip done acc L)
  (hA : Backed h.params.opDrivechain L₀ (fun x => x ∈ c.txids) (fun x => x ∈ c.allTxids) tip)
  (hd : TxDone h acc tx acc' infos res) (hf : h.fillCtips tip u tx = .ok infos)
  (hL : L.applyTx tx = some L') (hnew : ¬ usedTxids c coinbase done tx.computeTxid)

include hd in
theorem newCtip_step (s : SidechainNumber)
    (hc : (∃ cc, (newCtips res).get? s = some cc) ∨
      ∃ cc, acc.dbs.ctip.get? s = some cc ∧ cc.outpoint.txid ∈ done.map Transaction.computeTxid) :
    ∃ cc, acc'.dbs.ctip.get? s = some cc ∧
      cc.outpoint.txid ∈ (done++[tx]).map Transaction.computeTxid := by
  rw [txDone_ctip hd]
  cases hn : (newCtips res).get? s with
  | some cc => exact ⟨cc,Option.some_or,mem_txids_snoc.mpr (.inr (newCtip_txid hd hn))⟩
  | none =>
    rw [hn] at hc
    obtain ⟨cc,hcc,hm⟩ := hc.resolve_left (by simp)
    exact ⟨cc,by rw [Option.none_or,hcc],mem_txids_snoc.mpr (.inl hm)⟩

include hnew in
theorem not_done_of_new : tx.computeTxid ∉ done.map Transaction.computeTxid :=
  fun hm => hnew (.inr (.inr hm))

include hd in
theorem newCtips_bind (s : SidechainNumber) :
    (newCtips res).get? s = (infos.get? s).bind (newCtipOf acc.dbs s) := by
  rw [newCtips_get? hd,← hd.slotInfo_eq s]

include hb hL hnew in
theorem BlockAfter.outputs_step : ∀ t ∈ done++[tx], ∀ o out, o.txid = t.computeTxid →
    L'.get? o = some out → t.output[o.vout]? = some out := by
  intro t ht o out ho hout
  obtain ⟨-,hin,hget⟩ := Utxos.applyTx_some hL
  rcases List.mem_append.mp ht with ht | ht
  · have hne : o.txid ≠ tx.computeTxid :=
      fun he => not_done_of_new hnew (List.mem_map.mpr ⟨t,ht,by rw [← ho,he]⟩)
    rw [hget,if_neg hne] at hout
    split at hout
    · cases hout
    · exact hb.outputs t ht o out ho hout
  · obtain rfl := List.mem_singleton.mp ht
    rwa [hb.backed.ledger_own hL hnew ho] at hout

include hb hd in
theorem BlockAfter.ctipNew_step (s : SidechainNumber) (cc : Ctip)
    (hcc : acc'.dbs.ctip.get? s = some cc) :
    cc.outpoint.txid ∈ (done++[tx]).map Transaction.computeTxid ∨
      tip.ctip.get? s = some cc := by
  rw [txDone_ctip hd] at hcc
  cases hn : (newCtips res).get? s with
  | some cc' =>
    rw [hn,Option.some_or] at hcc
    obtain rfl := Option.some.inj hcc
    exact .inl (mem_txids_snoc.mpr (.inr (newCtip_txid hd hn)))
  | none =>
    rw [hn,Option.none_or] at hcc
    exact (hb.ctipNew s cc hcc).imp_left (fun hm => mem_txids_snoc.mpr (.inl hm))

include hb hd hf in
/-- The slots with a ctip are those of the tip and those the block pays into. -/
theorem BlockAfter.hasCtip_step (s : SidechainNumber) :
    acc'.dbs.ctip.contains s = true ↔
      tip.ctip.contains s = true ∨ ∃ t ∈ done++[tx], ∃ o v, MakesTreasury h tip t o s v := by
  have hcontains : acc'.dbs.ctip.contains s = true ↔
      (∃ cc, (newCtips res).get? s = some cc) ∨ acc.dbs.ctip.contains s = true := by
    rw [FinMap.contains_iff,FinMap.contains_iff,txDone_ctip hd]
    cases (newCtips res).get? s <;> simp
  rw [hcontains,hb.hasCtip]
  constructor
  · rintro (⟨cc,hcc⟩ | htip | ⟨t,ht,hm⟩)
    · rw [newCtips_bind hd] at hcc
      obtain ⟨info,hi,-⟩ := Option.bind_eq_some_iff.mp hcc
      exact .inr ⟨tx,by simp,_,_,(makesTreasury_iff hf).mpr ⟨info,hi,rfl⟩⟩
    · exact .inl htip
    · exact .inr ⟨t,List.mem_append_left _ ht,hm⟩
  · rintro (htip | ⟨t,ht,o,v,hm⟩)
    · exact .inr (.inl htip)
    · rcases List.mem_append.mp ht with ht | ht
      · exact .inr (.inr ⟨t,ht,o,v,hm⟩)
      · obtain rfl := List.mem_singleton.mp ht
        obtain ⟨info,hi,-⟩ := (makesTreasury_iff hf).mp hm
        cases hn : isNewCtip acc.dbs s info with
        | true =>
          exact .inl ⟨info.ctipOutput,by
            rw [newCtips_bind hd,hi,Option.bind_some,newCtipOf,if_pos hn]⟩
        | false =>
          rw [isNewCtip,Bool.or_eq_false_iff,Bool.not_eq_false',hb.hasCtip] at hn
          exact .inr hn.2

include hd hnew in
theorem index_none_kept (hidx : ∀ o : OutPoint, o.txid = tx.computeTxid →
      acc.dbs.ctipOutpointToValueSeq.get? o = none) {t : Transaction} {o : OutPoint}
    (ht : t ∈ done) (ho : o.txid = t.computeTxid) :
    acc'.dbs.ctipOutpointToValueSeq.get? o = none ↔
      acc.dbs.ctipOutpointToValueSeq.get? o = none := by
  rw [txDone_index_none hd hidx]
  refine and_iff_left (fun s v hc => not_done_of_new hnew (List.mem_map.mpr ⟨t,ht,?_⟩))
  rw [← newCtip_txid hd hc,← ho]

include hb hA hd hf hL in
theorem BlockAfter.leaves_step (hidx : ∀ o : OutPoint, o.txid = tx.computeTxid →
      acc.dbs.ctipOutpointToValueSeq.get? o = none) {o : OutPoint} {s : SidechainNumber} {v : ℕ}
    (hm : MakesTreasury h tip tx o s v) :
    acc'.dbs.ctipOutpointToValueSeq.get? o = none ↔ LeavesTreasury h tip done tx s := by
  obtain ⟨-,hin,-⟩ := Utxos.applyTx_some hL
  have hinfo : ∀ s, slotInfo h acc.dbs acc.unconsolidatedCtips tx s = infos.get? s :=
    fun s => (hd.slotInfo_eq s).symm
  obtain ⟨info,hi,hco⟩ := (makesTreasury_iff hf).mp hm
  rw [txDone_index_none hd hidx,← hb.isNewCtip_block hA hin hf hi,and_iff_right (hidx o hm.txid)]
  constructor
  · intro hno
    have hne := hno s v
    rw [newCtips_bind hd,hi,Option.bind_some,newCtipOf,hco] at hne
    by_contra hnew'
    rw [Bool.not_eq_false] at hnew'
    exact hne (if_pos hnew')
  · intro hn s' v' hc
    obtain ⟨info',hi',hn',hco'⟩ := newCtip_info hd hc
    have hs : s' = s := slotInfo_outpoint_inj hi' ((hinfo s).trans hi) (by rw [← hco',hco])
    subst hs
    obtain rfl := Option.some.inj (((hinfo s').trans hi).symm.trans hi')
    rw [hn] at hn'
    cases hn'

include hb hd in
/-- Only the payout of a bundle takes it from the pending ones. -/
theorem BlockAfter.pending_step (s : SidechainNumber) (p : PendingM6ids)
    (hp : tip.pendingM6ids.get? s = some p) :
    ∃ q, acc'.dbs.pendingM6ids.get? s = some q ∧
      ((∃ cc, acc'.dbs.ctip.get? s = some cc ∧
        cc.outpoint.txid ∈ (done++[tx]).map Transaction.computeTxid) ∨
        q.entries = p.entries.filter (fun e => !h.expired c.length e)) := by
  obtain ⟨q,hq,hcase⟩ := hb.pending s p hp
  have hkeep : (∃ cc, acc'.dbs.ctip.get? s = some cc ∧
      cc.outpoint.txid ∈ (done++[tx]).map Transaction.computeTxid) ∨
      q.entries = p.entries.filter (fun e => !h.expired c.length e) :=
    hcase.imp_left (fun hc => newCtip_step hd s (.inr hc))
  obtain ⟨-,hpend⟩ := hd.pending
  have hout := hd.outcome
  cases res with
  | none => exact ⟨q,by rw [hpend,hq],hkeep⟩
  | some res =>
    cases res with
    | m5Deposits deposits d => exact ⟨q,by rw [hpend,hq],hkeep⟩
    | m6Withdrawal s' m6id n d =>
      obtain ⟨p',hp',hpend⟩ := hpend
      by_cases hs : s' = s
      · subst hs
        refine ⟨p'.remove m6id,by rw [hpend,FinMap.get?_insert_self],.inl ?_⟩
        obtain ⟨info,-,-,hmake,-,-⟩ := hout
        have hslot := makeM6_sidechainNumber hmake
        refine newCtip_step hd s' (.inl ⟨d.newCtip,?_⟩)
        rw [newCtips,hslot,FinMap.get?_insert_self]
      · exact ⟨q,by rw [hpend,FinMap.get?_insert_ne _ _ hs,hq],hkeep⟩

include hb hA hd hf hL hnew in
/-- A transaction that the block applies as the mempool saw it. -/
theorem BlockAfter.step : BlockAfter h c coinbase tip (done++[tx]) acc' L' := by
  have hidx : ∀ o : OutPoint, o.txid = tx.computeTxid →
      acc.dbs.ctipOutpointToValueSeq.get? o = none :=
    fun o ho => hb.backed.index_new (by rw [ho]; exact hnew)
  refine ⟨stepBacked_done hb.backed hnew hd hL,?_,?_,?_,hb.outputs_step hL hnew,?_,?_,
    hb.ctipNew_step hd,hb.hasCtip_step hd hf,?_,hb.pending_step hd⟩
  · rw [List.map_append,List.nodup_append]
    refine ⟨hb.nodup,by simp,fun a ha b hb' he => ?_⟩
    rw [List.map_singleton,List.mem_singleton] at hb'
    exact not_done_of_new hnew (hb' ▸ he ▸ ha)
  · intro t ht
    rcases List.mem_append.mp ht with ht | ht
    · exact hb.new t ht
    · obtain rfl := List.mem_singleton.mp ht
      exact fun hm => hnew (.inl (txids_subset_allTxids c hm))
  · rw [(txDone_frame hd hb.backed.tables).2,hb.sidechain]
  · intro o e he
    obtain ⟨s,v,n⟩ := e
    exact (txDone_index hd hidx).mpr (.inl (hb.indexKept o _ he))
  · intro o e he
    obtain ⟨s,v,n⟩ := e
    rcases (txDone_index hd hidx).mp he with he | ⟨hc,-⟩
    · exact (hb.indexNew o _ he).imp_left (fun hm => mem_txids_snoc.mpr (.inl hm))
    · exact .inl (mem_txids_snoc.mpr (.inr (newCtip_txid hd hc)))
  · refine AtEach.snoc.mpr ⟨?_,fun o s v hm => hb.leaves_step hA hd hf hL hidx hm⟩
    refine hb.leaves.imp (fun before t ht hleaves o s v hm => ?_)
    rw [index_none_kept hd hnew hidx ht hm.txid,← hleaves o s v hm]

end BlockStep

section MempoolStep

variable {dbs cur cur' : Dbs} {used : Txid → Prop} {payout : Option (SidechainNumber × M6id)}
  (hm : MempoolAfter h used dbs done cur)
include hm

theorem MempoolAfter.other {action : TxAcceptAction} (hdone : ∀ t ∈ done, used t.computeTxid)
    (hnew : ¬ used tx.computeTxid) (ha : h.acceptTxWithPayout cur tx = .ok (action,payout,cur')) :
    MempoolAfter h used dbs done cur' := by
  obtain ⟨hactive,-,haction⟩ := acceptTxWithPayout_ok ha
  have hseen : ∀ o, used o.txid → cur'.seenUnconsolidatedCtipOutputs.get? o =
      cur.seenUnconsolidatedCtipOutputs.get? o := by
    intro o ho
    cases action with
    | reject => rw [haction]
    | accept _ _ =>
      obtain ⟨newCtips,infos,res,hadm,hget⟩ := haction
      rw [hget]
      refine hadm.kept (fun s info hi _ he => hnew ?_)
      have htx := ((makesTreasury_iff hadm.fill).mpr ⟨info,hi,rfl⟩).txid
      rw [← htx,he]
      exact ho
  refine ⟨hactive.trans hm.active,?_,?_⟩
  · intro t ht o s v hmakes hleft
    rw [hseen o (by rw [hmakes.txid]; exact hdone t ht)]
    exact hm.recorded t ht o s v hmakes hleft
  · intro o ho hno
    rw [hseen o ho]
    exact hm.unrecorded o ho hno

/-- Accepting the next transaction of the block. -/
theorem MempoolAfter.accept {conflictsWith : List Txid} {weight : ℕ}
    (hb : BlockAfter h c coinbase dbs.activeSidechains done acc L)
    (hA : Backed h.params.opDrivechain L₀ (fun x => x ∈ c.txids) (fun x => x ∈ c.allTxids)
      dbs.activeSidechains)
    (hin : ∀ o ∈ tx.spent, ∃ out, L.get? o = some out)
    (hnew : ¬ usedTxids c coinbase done tx.computeTxid)
    (ha : h.acceptTxWithPayout cur tx = .ok (.accept conflictsWith weight,payout,cur')) :
    MempoolAfter h used dbs (done++[tx]) cur' := by
  obtain ⟨hactive,-,newCtips,infos,res,hadm,hget⟩ := acceptTxWithPayout_ok ha
  have hself : ∀ o ∈ tx.spent, o.txid ≠ tx.computeTxid := by
    intro o ho he
    obtain ⟨out,hout⟩ := hin o ho
    exact hnew (he ▸ hb.backed.outputs o out hout)
  have hfill := hadm.fill
  rw [hm.active] at hfill
  have hleft : ∀ {s info}, infos.get? s = some info →
      (isNewCtip cur.activeSidechains s info = false ↔
        LeavesTreasury h dbs.activeSidechains [] tx s) := by
    intro s info hi
    rw [hm.active]
    exact hb.isNewCtip_tip hA hin hfill hi
  refine ⟨hactive.trans hm.active,?_,?_⟩
  · intro t ht o s v hmakes hl
    rw [hget]
    rcases List.mem_append.mp ht with ht | ht
    · rw [hadm.kept,hm.recorded t ht o s v hmakes hl]
      intro s' info hi _ he
      have htx := ((makesTreasury_iff hfill).mpr ⟨info,hi,rfl⟩).txid
      exact hnew (.inr (.inr (List.mem_map.mpr ⟨t,ht,by rw [← hmakes.txid,← he,htx]⟩)))
    · obtain rfl := List.mem_singleton.mp ht
      obtain ⟨info,hi,hco⟩ := (makesTreasury_iff hfill).mp hmakes
      have hnewCtip := hadm.left hself hi ((hleft hi).mpr hl)
      rw [hco] at hnewCtip
      rw [hnewCtip,Option.some_or]
  · intro o ho hno
    rw [hget,hadm.kept,hm.unrecorded o ho (fun t ht => hno t (List.mem_append_left _ ht))]
    intro s info hi hn he
    refine hno tx (by simp) s info.ctipOutput.value ?_ ((hleft hi).mp hn)
    exact (makesTreasury_iff hfill).mpr ⟨info,hi,by rw [← he]⟩

end MempoolStep

section Alike

variable {dbs cur : Dbs} {used : Txid → Prop}
  (hb : BlockAfter h c coinbase dbs.activeSidechains done acc L)
  (hA : Backed h.params.opDrivechain L₀ (fun x => x ∈ c.txids) (fun x => x ∈ c.allTxids)
    dbs.activeSidechains)
  (hm : MempoolAfter h used dbs done cur)

include hb hm in
/-- The block and the mempool find the same behind a treasury output of the block
exactly if they know alike about it. -/
theorem treasuryAt_eq_iff_made {out : TxOut} {before after : List Transaction} {t : Transaction}
    {s : SidechainNumber} {v : ℕ} (hout : L.get? o = some out) (hused : used o.txid)
    (hsplit : done = before++t::after) (hmakes : MakesTreasury h dbs.activeSidechains t o s v) :
    treasuryAt acc.dbs acc.unconsolidatedCtips.byOutpoint o =
      (cur.seenUnconsolidatedCtipOutputs.get? o).map (fun e => (false,e)) ↔
        KnownAlike h dbs done o := by
  rw [hb.knownAlike_made hsplit hmakes]
  by_cases hleft : LeavesTreasury h dbs.activeSidechains before t s
  · rw [hb.treasuryAt_left hsplit hmakes hout hleft]
    by_cases hfirst : LeavesTreasury h dbs.activeSidechains [] t s
    · -- the mempool has recorded it
      obtain ⟨cc,hcc,-⟩ := leavesTreasury_nil.mp hfirst
      rw [hm.recorded t (by simp [hsplit]) o s v hmakes hfirst]
      exact iff_of_true rfl ⟨hleft,.inl ((FinMap.contains_iff _ _).mpr ⟨cc,hcc⟩)⟩
    · -- it is known only if it was recorded before
      have hold : cur.seenUnconsolidatedCtipOutputs.get? o =
          dbs.seenUnconsolidatedCtipOutputs.get? o := by
        refine hm.unrecorded o hused (fun t' ht' s' v' hmakes' => ?_)
        obtain ⟨before',after',hsplit'⟩ := List.append_of_mem ht'
        obtain ⟨-,rfl,rfl,-⟩ := hb.makesTreasury_unique hsplit hmakes hsplit' hmakes'
        exact hfirst
      have hnot : dbs.activeSidechains.ctip.contains s ≠ true :=
        fun hc => hfirst ((leavesTreasury_of_contains hc).mp hleft)
      rw [hold,eq_comm,Option.map_eq_some_iff]
      constructor
      · rintro ⟨e,he,heq⟩
        obtain ⟨-,rfl⟩ := Prod.mk.inj heq
        exact ⟨hleft,.inr he⟩
      · rintro ⟨-,hk⟩
        exact ⟨(s,v),hk.resolve_left hnot,rfl⟩
  · obtain ⟨e,he⟩ := hb.treasuryAt_ctip_of_not_left hsplit hmakes hleft
    rw [he]
    refine iff_of_false (fun heq => ?_) (fun hk => hleft hk.1)
    obtain ⟨x,-,hx⟩ := Option.map_eq_some_iff.mp heq.symm
    cases (Prod.mk.inj hx).1

include hb hA hm in
/-- The block and the mempool find the same treasury output behind an unspent outpoint exactly
if they know alike about it. -/
theorem treasuryAt_eq_iff {out : TxOut} (hout : L.get? o = some out) (hused : used o.txid) :
    treasuryAt acc.dbs acc.unconsolidatedCtips.byOutpoint o =
      treasuryAt dbs.activeSidechains cur.seenUnconsolidatedCtipOutputs o ↔
        KnownAlike h dbs done o := by
  cases hi : dbs.activeSidechains.ctipOutpointToValueSeq.get? o with
  | some e =>
    obtain ⟨s,v,n⟩ := e
    have hnot := hb.not_done_of_index hA hi
    refine iff_of_true ?_ ⟨?_,fun _ => .inl ((FinMap.contains_iff _ _).mpr ⟨_,hi⟩)⟩
    · rw [treasuryAt_ctip.mpr ⟨n,hb.indexKept _ _ hi⟩,treasuryAt_ctip.mpr ⟨n,hi⟩]
    · intro before t after hsplit s v hmakes
      exact (hnot (List.mem_map.mpr ⟨t,by simp [hsplit],hmakes.txid.symm⟩)).elim
  | none =>
    have hmem : treasuryAt dbs.activeSidechains cur.seenUnconsolidatedCtipOutputs o =
        (cur.seenUnconsolidatedCtipOutputs.get? o).map (fun e => (false,e)) := by
      simp only [treasuryAt,hi]
    have hcontains : dbs.activeSidechains.ctipOutpointToValueSeq.contains o ≠ true := by
      rw [Ne,FinMap.contains_iff,hi]
      simp
    rw [hmem]
    by_cases hex : ∃ t ∈ done, ∃ s v, MakesTreasury h dbs.activeSidechains t o s v
    · obtain ⟨t,ht,s,v,hmakes⟩ := hex
      obtain ⟨before,after,hsplit⟩ := List.append_of_mem ht
      exact treasuryAt_eq_iff_made hb hm hout hused hsplit hmakes
    · -- not a treasury output of the block
      have hno : ∀ t ∈ done, ∀ s v, ¬ MakesTreasury h dbs.activeSidechains t o s v :=
        fun t ht s v hmakes => hex ⟨t,ht,s,v,hmakes⟩
      rw [hb.treasuryAt_other hout hi hno,hm.unrecorded o hused (fun t ht s v hmakes =>
        (hno t ht s v hmakes).elim),eq_comm,Option.map_eq_none_iff]
      constructor
      · intro hnone
        refine ⟨fun before t after hsplit s v hmakes => ?_,fun _ => .inr hnone⟩
        exact (hno t (by simp [hsplit]) s v hmakes).elim
      · intro hk
        exact (hk.others hno).resolve_left hcontains

end Alike

end After

end Bip300301Enforcer
