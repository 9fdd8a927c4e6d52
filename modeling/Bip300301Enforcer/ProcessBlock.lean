import Bip300301Enforcer.BlockTxs

/-! What a whole block does to the consensus tables: it keeps the links between
them, and undoing its diff restores them. -/
namespace Bip300301Enforcer
open Lib

namespace ConsensusDbs

def setIndex (t : ConsensusDbs) (i : Database OutPoint (SidechainNumber × ℕ × ℕ)) : ConsensusDbs :=
  { t with activeSidechains := t.activeSidechains.setIndex i }

/-- The same tables, up to the index unless `P` holds. -/
def Like (P : Prop) (t' t : ConsensusDbs) : Prop :=
  ActiveSidechainDbs.Like P t'.activeSidechains t.activeSidechains ∧
    t'.proposalIdToSidechain = t.proposalIdToSidechain

theorem Like.refl (P : Prop) (t : ConsensusDbs) : Like P t t := ⟨.refl P _,rfl⟩

theorem Like.trans {P : Prop} {a b c : ConsensusDbs} (h : Like P a b) (h' : Like P b c) :
    Like P a c := ⟨h.1.trans h'.1,h.2.trans h'.2⟩

theorem Like.eq {P : Prop} {t' t : ConsensusDbs} (h : Like P t' t) (hP : P) : t' = t := by
  obtain ⟨a,p⟩ := t'
  obtain ⟨h₁,h₂⟩ := h
  have ha : a = t.activeSidechains := h₁.eq hP
  have hp : p = t.proposalIdToSidechain := h₂
  rw [ha,hp]

theorem Like.wf [Bitcoin] {P : Prop} {t' t : ConsensusDbs} (h : Like P t' t) (hw : t.Wf) : t'.Wf := by
  obtain ⟨⟨i,hi,-⟩,hp⟩ := h
  refine ⟨?_,?_,?_⟩
  · rw [hi]; exact ActiveSidechainDbs.tables_setIndex hw.tables
  · rw [hi]; exact hw.sidechains
  · rw [hp]; exact hw.proposals

end ConsensusDbs

namespace ActiveSidechainDbs

variable (i : Database OutPoint (SidechainNumber × ℕ × ℕ))

theorem withPendingWithdrawals_setIndex (dbs : ActiveSidechainDbs) (s : SidechainNumber)
    (f : PendingM6ids → Res PendingM6ids) :
    (dbs.setIndex i).withPendingWithdrawals s f =
      (dbs.withPendingWithdrawals s f).map (fun d => d.setIndex i) := by
  simp only [withPendingWithdrawals,setIndex]
  cases Database.get dbs.pendingM6ids .pendingM6ids s with
  | error _ => rfl
  | ok p =>
    simp only [Fallible.ok_bind]
    cases f p <;> rfl

end ActiveSidechainDbs

namespace Diff
open ActiveSidechainDbs ConsensusDbs

variable (i : Database OutPoint (SidechainNumber × ℕ × ℕ))

theorem AckBundles.undo_setIndex (d : AckBundles) (dbs : ActiveSidechainDbs) :
    d.undo (dbs.setIndex i) = (d.undo dbs).map (fun d => d.setIndex i) := by
  refine Fallible.foldlM_commute (g := fun d : ActiveSidechainDbs => d.setIndex i) ?_ _ _
  intro dbs e
  rw [AckBundleAction.undo_eq,AckBundleAction.undo_eq,withPendingWithdrawals_setIndex]

theorem FailedM6ids.undo_setIndex (d : FailedM6ids) (dbs : ActiveSidechainDbs) :
    d.undo (dbs.setIndex i) = (d.undo dbs).map (fun d => d.setIndex i) := by
  refine Fallible.foldlM_commute (g := fun d : ActiveSidechainDbs => d.setIndex i) ?_ _ _
  intro dbs e
  exact withPendingWithdrawals_setIndex i dbs _ _

theorem AckSidechainProposal.undo_setIndex (d : AckSidechainProposal) (t : ConsensusDbs) :
    d.undo (t.setIndex i) = (d.undo t).map (fun t => t.setIndex i) := by
  have hd : d.deactivate (t.setIndex i) =
      (d.deactivate t).map (fun e => (e.1,e.2.setIndex i)) := by
    unfold deactivate
    cases d.effect with
    | noActivation =>
      simp only [ConsensusDbs.setIndex]
      cases Database.get t.proposalIdToSidechain .proposalIdToSidechain d.id <;> rfl
    | replaceActive prev =>
      simp only [ConsensusDbs.setIndex,ActiveSidechainDbs.setIndex]
      cases Database.get t.activeSidechains.sidechain .sidechain d.id.sidechainNumber <;> rfl
    | slotActivation =>
      simp only [ConsensusDbs.setIndex,ActiveSidechainDbs.setIndex]
      cases Database.get t.activeSidechains.sidechain .sidechain d.id.sidechainNumber <;> rfl
  unfold undo
  rw [hd]
  cases d.deactivate t with
  | error _ => rfl
  | ok e =>
    simp only [Except.map,Fallible.ok_bind]
    cases Fallible.ensure (decide (e.1.status.voteCount ≠ 0))
      (Error.sidechainVoteCountUnderflow d.id.sidechainNumber) <;> rfl

theorem CoinbaseMsg.undo_setIndex (d : CoinbaseMsg) (t : ConsensusDbs) :
    d.undo (t.setIndex i) = (d.undo t).map (fun t => t.setIndex i) := by
  cases d with
  | ackSidechainProposal d => exact d.undo_setIndex i t
  | newSidechainProposal d => rfl
  | ackBundles d =>
    have hd := d.undo_setIndex i t.activeSidechains
    simp only [undo,ConsensusDbs.setIndex,hd]
    cases d.undo t.activeSidechains <;> rfl
  | proposeBundle d =>
    have hd : d.undo (t.activeSidechains.setIndex i) =
        (d.undo t.activeSidechains).map (fun d => d.setIndex i) :=
      withPendingWithdrawals_setIndex i _ _ _
    simp only [undo,ConsensusDbs.setIndex,hd]
    cases d.undo t.activeSidechains <;> rfl

theorem Coinbase.undo_setIndex (d : Coinbase) (t : ConsensusDbs) :
    d.undo (t.setIndex i) = (d.undo t).map (fun t => t.setIndex i) := by
  unfold undo
  have hf := d.failedM6ids.undo_setIndex i t.activeSidechains
  simp only [ConsensusDbs.setIndex] at hf ⊢
  rw [hf]
  cases d.failedM6ids.undo t.activeSidechains with
  | error _ => rfl
  | ok a =>
    simp only [Except.map,Fallible.ok_bind]
    exact Fallible.foldlM_commute (g := fun t : ConsensusDbs => t.setIndex i)
      (fun t d => CoinbaseMsg.undo_setIndex i d t) _ (d.failedProposals.undo { t with activeSidechains := a })

theorem Coinbase.undoes {P : Prop} {d : Coinbase} {t₂ t : ConsensusDbs} (h : d.undo t₂ = .ok t) :
    Undo.Undoes undo (ConsensusDbs.Like P) d t₂ t := by
  have hindex : t.activeSidechains.ctipOutpointToValueSeq =
      t₂.activeSidechains.ctipOutpointToValueSeq := by
    have hs := d.undo_setIndex t₂.activeSidechains.ctipOutpointToValueSeq t₂
    have hself : t₂.setIndex t₂.activeSidechains.ctipOutpointToValueSeq = t₂ := rfl
    rw [hself,h] at hs
    have ht := congrArg (fun t => t.activeSidechains.ctipOutpointToValueSeq) (Except.ok.inj hs)
    exact ht
  rintro ⟨a,p⟩ ⟨⟨i,hi,hP⟩,hp⟩
  simp only at hi hp
  subst hi hp
  refine ⟨t.setIndex i,?_,⟨i,rfl,fun h => by rw [hP h,hindex]⟩,rfl⟩
  have hs := d.undo_setIndex i t₂
  rw [h] at hs
  exact hs

end Diff

namespace BlockHandler
open Diff ActiveSidechainDbs

variable [Bitcoin] {h : BlockHandler} {t : ConsensusDbs} {height : ℕ} {parent blockHash : BlockHash}
  {prevDiff : Option Diff.Block} {coinbase : Transaction} {txs : List Transaction}

/-- What an accepted coinbase does. The tables after its messages are `t₁`, and
the failed proposals and bundles are removed from them. -/
structure CoinbaseDone (h : BlockHandler) (t : ConsensusDbs) (height : ℕ) (parent : BlockHash)
    (prevDiff : Option Diff.Block) (coinbase : Transaction) (scan : CoinbaseScan)
    (t₁ t₂ : ConsensusDbs) (events : List BlockEvent) (d : Coinbase) : Prop where
  scanned : scanCoinbase coinbase = .ok scan
  ran : Ran h height parent prevDiff t (scan.messages.messages.map Prod.fst) t₁ d.msgs
  failedProposals : d.failedProposals = h.handleFailedSidechainProposals t₁ height
  failedM6ids : h.handleFailedM6ids t₁.activeSidechains height = .ok d.failedM6ids
  applied : d.failedM6ids.apply t₁.activeSidechains = .ok t₂.activeSidechains
  proposals : t₂.proposalIdToSidechain = (d.failedProposals.apply t₁).proposalIdToSidechain
  noDeposits : NoDeposits events

theorem connectCoinbase_ok {t₂ : ConsensusDbs} {accepted : BmmCommitments} {events : List BlockEvent}
    {d : Coinbase}
    (hc : h.connectCoinbase t height parent prevDiff coinbase = .ok (t₂,accepted,events,d)) :
    ∃ scan t₁, CoinbaseDone h t height parent prevDiff coinbase scan t₁ t₂ events d := by
  obtain ⟨scan,hscan,hc⟩ := Fallible.bind_ok.mp hc
  obtain ⟨acc,hacc,hc⟩ := Fallible.bind_ok.mp hc
  rw [connectMissingM4_eq,Fallible.ok_bind] at hc
  obtain ⟨failed,hfailed,hc⟩ := Fallible.bind_ok.mp hc
  obtain ⟨active,hactive,hc⟩ := Fallible.bind_ok.mp hc
  simp only [Fallible.pure_ok,Prod.mk.injEq] at hc
  obtain ⟨rfl,-,rfl,rfl⟩ := hc
  obtain ⟨hran,hno⟩ := ran_foldlM hacc
  exact ⟨scan,acc.dbs,hscan,hran,rfl,hfailed,hactive,rfl,
    noDeposits_append hno (noDeposits_failedM6ids _)⟩

namespace CoinbaseDone

variable {scan : CoinbaseScan} {t₁ t₂ : ConsensusDbs} {events : List BlockEvent} {d : Coinbase}

theorem wf (hc : CoinbaseDone h t height parent prevDiff coinbase scan t₁ t₂ events d) (hw : t.Wf) :
    t₁.Wf ∧ t₂.Wf := by
  have hw₁ := ran_wf hc.ran hw
  obtain ⟨m,hm,hkeep,hnone⟩ := failedM6ids_apply hw₁.tables hc.failedM6ids hc.applied
  refine ⟨hw₁,?_,?_,?_⟩
  · rw [hm]
    refine tables_setPending hw₁.tables ?_
    intro s
    cases hp : t₁.activeSidechains.pendingM6ids.get? s with
    | none => simp [FinMap.contains,hp,hnone s hp]
    | some p =>
      obtain ⟨q,hq,-⟩ := hkeep s p hp
      simp [FinMap.contains,hp,hq]
  · rw [hm]; exact hw₁.sidechains
  · intro id sc hs
    rw [hc.proposals,FailedProposals.apply,FinMap.get?_eraseAll] at hs
    split at hs
    · cases hs
    · exact hw₁.proposals id sc hs

theorem frame (hc : CoinbaseDone h t height parent prevDiff coinbase scan t₁ t₂ events d)
    (hw : t.Wf) :
    SameTreasury t₂.activeSidechains t.activeSidechains ∧
      t₂.activeSidechains.sidechain = t₁.activeSidechains.sidechain ∧
      ∀ s, t.activeSidechains.sidechain.contains s = true →
        t₂.activeSidechains.sidechain.contains s = true := by
  have hw₁ := ran_wf hc.ran hw
  obtain ⟨m,hm,-,-⟩ := failedM6ids_apply hw₁.tables hc.failedM6ids hc.applied
  obtain ⟨hst,hgrow⟩ := ran_frame hc.ran
  have hpend : SameTreasury { t₁.activeSidechains with pendingM6ids := m } t₁.activeSidechains :=
    ⟨rfl,rfl,rfl,rfl⟩
  rw [hm]
  exact ⟨hpend.trans hst,rfl,hgrow⟩

theorem undo (hc : CoinbaseDone h t height parent prevDiff coinbase scan t₁ t₂ events d)
    (hw : t.Wf) : d.undo t₂ = .ok t := by
  have hw₁ := ran_wf hc.ran hw
  have hfailed := failedM6ids_undo hw₁.tables hc.failedM6ids hc.applied
  have hprop : d.failedProposals.undo { t₂ with activeSidechains := t₁.activeSidechains } = t₁ := by
    have hpart := @FailedProposals.undo_apply d.failedProposals t₁ (by
      intro id sc hs
      rw [hc.failedProposals,handleFailedSidechainProposals,FinMap.get?_filter] at hs
      exact (Option.filter_eq_some_iff.mp hs).1)
    rw [← hpart]
    simp only [FailedProposals.undo,hc.proposals,FailedProposals.apply]
  obtain ⟨_,hmsgs,rfl⟩ := ran_undo hc.ran hw t₁ rfl
  unfold Coinbase.undo
  rw [hfailed,Fallible.ok_bind]
  simp only [hprop]
  exact hmsgs

end CoinbaseDone

def NewTxs (T : Txid → Prop) (txs : List Transaction) : Prop :=
  (txs.map Transaction.computeTxid).Nodup ∧ ∀ tx ∈ txs, ¬ T tx.computeTxid

/-- What the transactions of a block keep, and how they are taken back. -/
theorem foldlM_connectTx {P : Prop} {T : Txid → Prop} {accepted : BmmCommitments}
    {acc₀ acc : TxState} (hnil : acc₀.diffs = [])
    (hf : txs.foldlM (h.connectTx accepted parent blockHash) acc₀ = .ok acc)
    (ht : acc₀.dbs.Tables)
    (hP : P → acc₀.dbs.Indexed ∧ acc₀.dbs.MadeBy T ∧ NewTxs T txs) :
    acc.dbs.Tables ∧ acc.dbs.sidechain = acc₀.dbs.sidechain ∧
      Undo.UndoesAll Tx.undo (Like P) acc.diffs acc.dbs acc₀.dbs ∧
      (P → acc.dbs.Indexed ∧ acc.dbs.MadeBy (fun t => T t ∨ t ∈ txs.map Transaction.computeTxid)) := by
  refine Fallible.foldlM_prefix (fun done acc => acc.dbs.Tables ∧
    acc.dbs.sidechain = acc₀.dbs.sidechain ∧
    Undo.UndoesAll Tx.undo (Like P) acc.diffs acc.dbs acc₀.dbs ∧
    (P → acc.dbs.Indexed ∧ acc.dbs.MadeBy (fun t => T t ∨ t ∈ done.map Transaction.computeTxid)))
    hf ?_ ?_
  · refine ⟨ht,rfl,by rw [hnil]; exact Undo.undoesAll_nil _,fun hp => ?_⟩
    obtain ⟨hi,hm,-⟩ := hP hp
    exact ⟨hi,hm.mono (fun t ht => .inl ht)⟩
  · rintro done tx rest acc acc' hsplit ⟨ht,hs,hu,hi⟩ hstep
    obtain ⟨infos,res,hd⟩ := connectTx_ok hstep
    obtain ⟨ht',hs'⟩ := txDone_frame hd ht
    have hfresh : P → ¬ (T tx.computeTxid ∨ tx.computeTxid ∈ done.map Transaction.computeTxid) := by
      intro hp
      obtain ⟨-,-,hnodup,hnew⟩ := hP hp
      rw [hsplit,List.map_append,List.map_cons,List.nodup_append] at hnodup
      rintro (hT | hmem)
      · exact hnew tx (by simp [hsplit]) hT
      · exact hnodup.2.2 _ hmem _ (List.mem_cons_self ..) rfl
    refine ⟨ht',hs'.trans hs,txDone_undo hd ht ?_ hu,?_⟩
    · intro hp o ho
      obtain ⟨hidx,hmade⟩ := hi hp
      exact index_none_of_fresh hidx hmade (by rw [ho]; exact hfresh hp)
    · intro hp
      obtain ⟨hidx,hmade⟩ := hi hp
      obtain ⟨hidx',hmade'⟩ := txDone_indexed hd ht hidx hmade (hfresh hp)
      refine ⟨hidx',hmade'.mono ?_⟩
      intro t ht
      simp only [List.map_append,List.map_cons,List.map_nil,List.mem_append,List.mem_singleton]
      tauto

theorem processBlock_ok {res : ProcessedBlock}
    (hp : h.processBlock t height parent blockHash prevDiff coinbase txs = .ok res) :
    (height < h.params.bip300ActivationHeight ∧ res = ⟨t,(emptyBlockInfoAndDiff coinbase.computeTxid).1,
      (emptyBlockInfoAndDiff coinbase.computeTxid).2,.default⟩) ∨
    (h.params.bip300ActivationHeight ≤ height ∧ ∃ scan t₁ t₂ accepted events d acc,
      h.connectCoinbase t height parent prevDiff coinbase = .ok (t₂,accepted,events,d) ∧
      CoinbaseDone h t height parent prevDiff coinbase scan t₁ t₂ events d ∧
      txs.foldlM (h.connectTx accepted parent blockHash)
        ⟨t₂.activeSidechains,.default,[],events,[]⟩ = .ok acc ∧
      res = ⟨{ t₂ with activeSidechains := acc.dbs },⟨accepted,coinbase.computeTxid,acc.events⟩,
        ⟨d,acc.diffs⟩,acc.unconsolidatedCtips⟩) := by
  unfold processBlock at hp
  by_cases hlt : height < h.params.bip300ActivationHeight
  · rw [if_pos hlt] at hp
    exact .inl ⟨hlt,(Except.ok.inj hp).symm⟩
  · rw [if_neg hlt] at hp
    obtain ⟨⟨t₂,accepted,events,d⟩,hc,hp⟩ := Fallible.bind_ok.mp hp
    obtain ⟨acc,hacc,hp⟩ := Fallible.bind_ok.mp hp
    rw [Fallible.pure_ok] at hp
    obtain ⟨scan,t₁,hdone⟩ := connectCoinbase_ok hc
    exact .inr ⟨by omega,scan,t₁,t₂,accepted,events,d,acc,hc,hdone,hacc,hp.symm⟩

/-- What a block keeps, and that undoing it restores the tables. -/
theorem processBlock_spec {P : Prop} {T : Txid → Prop} {res : ProcessedBlock}
    (hp : h.processBlock t height parent blockHash prevDiff coinbase txs = .ok res) (hw : t.Wf)
    (hP : P → t.activeSidechains.Indexed ∧ t.activeSidechains.MadeBy T ∧ NewTxs T txs) :
    res.dbs.Wf ∧ Undo.Undoes Diff.Block.undo (ConsensusDbs.Like P) res.diff res.dbs t ∧
      (P → res.dbs.activeSidechains.Indexed ∧ res.dbs.activeSidechains.MadeBy
        (fun x => T x ∨ x ∈ txs.map Transaction.computeTxid)) := by
  rcases processBlock_ok hp with ⟨-,rfl⟩ | ⟨-,scan,t₁,t₂,accepted,events,d,acc,-,hc,hf,rfl⟩
  · refine ⟨hw,fun t' ht' => ⟨t',rfl,ht'⟩,fun hp => ?_⟩
    obtain ⟨hi,hm,-⟩ := hP hp
    exact ⟨hi,hm.mono (fun x hx => .inl hx)⟩
  · obtain ⟨hw₁,hw₂⟩ := hc.wf hw
    obtain ⟨hst,-,-⟩ := hc.frame hw
    obtain ⟨ht,hs,hu,hi⟩ := foldlM_connectTx rfl hf hw₂.tables (fun hp => by
      obtain ⟨hi,hm,hn⟩ := hP hp
      exact ⟨hst.indexed hi,hst.madeBy hm,hn⟩)
    refine ⟨⟨ht,?_,hw₂.proposals⟩,?_,hi⟩
    · rw [hs]; exact hw₂.sidechains
    · rintro ⟨a,p⟩ ⟨ha,hp⟩
      simp only at ha hp
      subst hp
      obtain ⟨a₂,hundo,hlike⟩ := hu a ha
      have hcb : Undo.Undoes Coinbase.undo (ConsensusDbs.Like P) d t₂ t := Coinbase.undoes (hc.undo hw)
      obtain ⟨t',ht',hl'⟩ := hcb { t₂ with activeSidechains := a₂ } ⟨hlike,rfl⟩
      exact ⟨t',Fallible.bind_ok.mpr ⟨a₂,hundo,ht'⟩,hl'⟩

end BlockHandler
end Bip300301Enforcer
