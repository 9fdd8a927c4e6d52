import Bip300301Enforcer.Bmm
import Bip300301Enforcer.CusfEnforcer

/-! The BMM requests in the mempool: all of them are for the block on top of the tip, and
those for one slot are known to be in conflict. -/
namespace Bip300301Enforcer
open Lib BlockHandler

section Requests

variable [Bitcoin] {h : BlockHandler}

/-- What is known about the BMM requests in the mempool. -/
structure EnforcedNode.RequestsCurrent (s : EnforcedNode) : Prop where
  /-- Every request is for the block on top of the tip. -/
  tip : ∀ e ∈ s.mempool, ∀ r, parseM8Tx e.tx = some r →
    s.dbs.currentChainTip = some r.prevMainchainBlockHash
  /-- Every request was seen on top of its parent. -/
  seen : ∀ e ∈ s.mempool, ∀ r, parseM8Tx e.tx = some r →
    (r.sidechainNumber,r.sidechainBlockHash,e.tx.computeTxid) ∈
      s.dbs.blockHashes.getSeenBmmRequestsForParentBlock r.prevMainchainBlockHash
  /-- Of two requests for one slot, the later one was accepted with the earlier one as a
  conflict. -/
  conflicts : s.mempool.Pairwise (fun later earlier => ∀ r r', parseM8Tx later.tx = some r →
    parseM8Tx earlier.tx = some r' → r.sidechainNumber = r'.sidechainNumber →
    later.tx.computeTxid ≠ earlier.tx.computeTxid → earlier.tx.computeTxid ∈ later.conflictsWith)

def EnforcedNode.NoRequests (mempool : List MempoolTx) : Prop :=
  ∀ e ∈ mempool, parseM8Tx e.tx = none

theorem EnforcedNode.NoRequests.current {dbs : Dbs} {mempool : List MempoolTx}
    (hm : NoRequests mempool) : (EnforcedNode.mk dbs mempool).RequestsCurrent := by
  have hnone : ∀ e ∈ mempool, ∀ r, parseM8Tx e.tx ≠ some r := by
    intro e he r hr
    rw [hm e he] at hr
    cases hr
  refine ⟨fun e he r hr => absurd hr (hnone e he r),fun e he r hr => absurd hr (hnone e he r),?_⟩
  exact List.pairwise_of_forall_mem_list (fun e he _ _ r _ hr => absurd hr (hnone e he r))

theorem EnforcedNode.RequestsCurrent.sublist {s : EnforcedNode} {dbs : Dbs}
    {mempool : List MempoolTx} (hs : s.RequestsCurrent) (hm : mempool.Sublist s.mempool)
    (htip : dbs.currentChainTip = s.dbs.currentChainTip)
    (hseen : dbs.blockHashes.seenBmmRequestTxs = s.dbs.blockHashes.seenBmmRequestTxs) :
    (EnforcedNode.mk dbs mempool).RequestsCurrent := by
  refine ⟨?_,?_,hs.conflicts.sublist hm⟩
  · intro e he r hr
    rw [htip]
    exact hs.tip e (hm.subset he) r hr
  · intro e he r hr
    unfold BlockHashDbs.getSeenBmmRequestsForParentBlock
    rw [hseen]
    exact hs.seen e (hm.subset he) r hr

theorem EnforcedNode.RequestsCurrent.drop_tip {s : EnforcedNode} (hs : s.RequestsCurrent)
    {txids : List Txid}
    (ht : ∀ t, s.dbs.currentChainTip = some t → ∀ x ∈ s.dbs.blockHashes.seenTxids t, x ∈ txids) :
    NoRequests (drop s.mempool txids) := by
  intro e he
  obtain ⟨hmem,hkeep⟩ := List.mem_filter.mp he
  cases hr : parseM8Tx e.tx with
  | none => rfl
  | some r =>
    have hseen : e.tx.computeTxid ∈ s.dbs.blockHashes.seenTxids r.prevMainchainBlockHash :=
      List.mem_map.mpr ⟨_,hs.seen e hmem r hr,rfl⟩
    have hin := ht _ (hs.tip e hmem r hr) _ hseen
    simp [hin] at hkeep

/-- A request that is valid on top of the tip is for it. -/
theorem validateTx_request {dbs : Dbs} {tx : Transaction} {v : ValidatedTx} {r : M8BmmRequest}
    (hv : h.validateTx dbs tx = .ok v) (ha : acceptedCtips v ≠ none) (hr : parseM8Tx tx = some r) :
    dbs.currentChainTip = some r.prevMainchainBlockHash := by
  obtain ⟨tip,htip,hv⟩ := Fallible.bind_ok.mp hv
  rw [Fallible.require_ok] at htip
  obtain ⟨_,-,hv⟩ := Fallible.bind_ok.mp hv
  have hm8 : ∀ {x}, ({ h with requirePayableBundles := false } : BlockHandler).handleTransaction
      dbs.activeSidechains none (seenUnconsolidated dbs tx) tip tx = .ok x →
      r.prevMainchainBlockHash = tip := by
    intro x hx
    obtain ⟨_,-,hx⟩ := Fallible.bind_ok.mp hx
    obtain ⟨b,hb,-⟩ := Fallible.bind_ok.mp hx
    simp only [handleM8,hr] at hb
    split at hb
    · cases hb
    · split at hb
      · cases hb
      · rename_i hne
        exact not_not.mp hne
  simp only at hv
  split at hv
  · rename_i hx
    rw [htip,hm8 hx]
  · rename_i hx
    rw [htip,hm8 hx]
  · split at hv
    · rw [Fallible.pure_ok] at hv
      exact absurd (by rw [← hv]; rfl) ha
    · cases hv
    · cases hv

/-- Accepting a transaction. -/
theorem EnforcedNode.RequestsCurrent.acceptTx {s : EnforcedNode} (hs : s.RequestsCurrent)
    {tx : Transaction} {conflictsWith : List Txid} {weight : ℕ}
    {payout : Option (SidechainNumber × M6id)} {dbs : Dbs}
    (ha : h.acceptTxWithPayout s.dbs tx = .ok (.accept conflictsWith weight,payout,dbs)) :
    (EnforcedNode.mk dbs (⟨tx,conflictsWith⟩::s.mempool)).RequestsCurrent := by
  obtain ⟨v,hv,ha⟩ := Fallible.bind_ok.mp ha
  cases hacc : acceptedCtips v with
  | none =>
    simp only [hacc,Fallible.pure_ok,Prod.mk.injEq,reduceCtorEq,false_and] at ha
  | some p =>
    obtain ⟨newCtips,payout'⟩ := p
    simp only [hacc] at ha
    cases hr : parseM8Tx tx with
    | none =>
      simp only [hr,Fallible.pure_ok,Prod.mk.injEq,TxAcceptAction.accept.injEq] at ha
      obtain ⟨⟨rfl,-⟩,-,rfl⟩ := ha
      refine ⟨?_,?_,?_⟩
      · intro e he r her
        rcases List.mem_cons.mp he with rfl | he
        · rw [hr] at her
          cases her
        · exact hs.tip e he r her
      · intro e he r her
        rcases List.mem_cons.mp he with rfl | he
        · rw [hr] at her
          cases her
        · exact hs.seen e he r her
      · refine List.pairwise_cons.mpr ⟨fun e he r r' her => ?_,hs.conflicts⟩
        rw [hr] at her
        cases her
    | some r =>
      simp only [hr,Fallible.pure_ok,Prod.mk.injEq,TxAcceptAction.accept.injEq,noteBmmRequest] at ha
      obtain ⟨⟨rfl,-⟩,-,rfl⟩ := ha
      have htip := validateTx_request hv (by rw [hacc]; simp) hr
      refine ⟨?_,?_,?_⟩
      · intro e he r' her
        rcases List.mem_cons.mp he with rfl | he
        · rw [hr] at her
          obtain rfl := Option.some.inj her
          exact htip
        · exact hs.tip e he r' her
      · intro e he r' her
        unfold BlockHashDbs.getSeenBmmRequestsForParentBlock BlockHashDbs.putSeenBmmRequest
        rcases List.mem_cons.mp he with rfl | he
        · rw [hr] at her
          obtain rfl := Option.some.inj her
          refine List.mem_map.mpr ⟨⟨_,_,_,_⟩,List.mem_filter.mpr ⟨List.mem_insert_self,?_⟩,rfl⟩
          simp
        · obtain ⟨q,hq,heq⟩ := List.mem_map.mp (hs.seen e he r' her)
          obtain ⟨hmem,hparent⟩ := List.mem_filter.mp hq
          exact List.mem_map.mpr ⟨q,List.mem_filter.mpr ⟨List.mem_insert_of_mem hmem,hparent⟩,heq⟩
      · refine List.pairwise_cons.mpr ⟨fun e he r₁ r' her her' hslot hne => ?_,hs.conflicts⟩
        rw [hr] at her
        obtain rfl := Option.some.inj her
        have hsame := Option.some.inj (htip.symm.trans (hs.tip e he r' her'))
        obtain ⟨q,hq,heq⟩ := List.mem_map.mp (hs.seen e he r' her')
        obtain ⟨hmem,hparent⟩ := List.mem_filter.mp hq
        obtain ⟨hqs,hqc,hqt⟩ := Prod.mk.inj heq |>.imp id Prod.mk.inj
        rw [decide_eq_true_eq] at hparent
        refine List.mem_filter.mpr ⟨?_,by simpa using Ne.symm hne⟩
        refine List.mem_map.mpr ⟨(q.commitment,q.txid),?_,hqt⟩
        refine List.mem_map.mpr ⟨q,List.mem_filter.mpr ⟨hmem,?_⟩,rfl⟩
        simp [hparent,hsame,hqs,hslot]

theorem storeHeader_mempool {dbs dbs' : Dbs} {b : Block} (hst : storeHeader dbs b = some dbs') :
    dbs'.currentChainTip = dbs.currentChainTip ∧
      dbs'.blockHashes.seenBmmRequestTxs = dbs.blockHashes.seenBmmRequestTxs := by
  unfold storeHeader at hst
  split at hst
  · obtain rfl := Option.some.inj hst
    exact ⟨rfl,rfl⟩
  · obtain ⟨n,-,rfl⟩ := Option.map_eq_some_iff.mp hst
    exact ⟨rfl,rfl⟩

/-- Connecting a block drops all requests, because they are for its parent. -/
theorem EnforcedNode.RequestsCurrent.connectBlock {s : EnforcedNode} (hs : s.RequestsCurrent)
    {b : Block} {action : ConnectBlockAction} {dbs : Dbs}
    (hc : h.connectBlockCommit s.dbs b = .ok (action,dbs)) :
    match action with
    | .accept removed =>
      NoRequests (drop s.mempool (removed++b.txdata.map Transaction.computeTxid))
    | .reject => (EnforcedNode.mk dbs s.mempool).RequestsCurrent := by
  unfold connectBlockCommit at hc
  cases hst : storeHeader s.dbs b with
  | none =>
    simp only [hst] at hc
    obtain ⟨rfl,rfl⟩ := Prod.mk.inj (Except.ok.inj hc)
    exact hs
  | some dbs₁ =>
    obtain ⟨htip,hseen⟩ := storeHeader_mempool hst
    simp only [hst] at hc
    cases hcon : h.connectBlock dbs₁ b with
    | ok r =>
      obtain ⟨event,dbs'⟩ := r
      simp only [hcon] at hc
      obtain ⟨rfl,rfl⟩ := Prod.mk.inj (Except.ok.inj hc)
      obtain ⟨n,coinbase,txs,res,hp,-,hrec⟩ := connectBlock_ok.mp hcon
      obtain ⟨hd,w,-,-,-,tip,rfl,-⟩ := recordBlock_ok hrec
      refine hs.drop_tip (fun t ht x hx => List.mem_append_left _ ?_)
      have hparent : b.header.prevBlockhash = t := by
        rw [hp.parent,htip,ht]
        rfl
      rw [hparent]
      unfold BlockHashDbs.seenTxids BlockHashDbs.getSeenBmmRequestsForParentBlock at hx ⊢
      simp only [BlockHashDbs.recorded]
      rwa [hseen]
    | error err =>
      simp only [hcon] at hc
      split at hc
      · obtain ⟨rfl,rfl⟩ := Prod.mk.inj (Except.ok.inj hc)
        exact hs.sublist (List.Sublist.refl _) htip hseen
      · cases hc
      · cases hc

theorem EnforcedNode.RequestsCurrent.disconnectBlock {s : EnforcedNode} (hs : s.RequestsCurrent)
    {hash : BlockHash} {removed : List Txid} {dbs : Dbs}
    (hd : disconnectBlockCommit s.dbs hash = .ok (removed,dbs)) :
    (EnforcedNode.mk dbs (drop s.mempool removed)).RequestsCurrent := by
  obtain ⟨⟨events,dbs'⟩,hdis,hd⟩ := Fallible.bind_ok.mp hd
  simp only [Fallible.pure_ok,Prod.mk.injEq] at hd
  obtain ⟨rfl,rfl⟩ := hd
  rcases disconnectBlock_ok.mp hdis with ⟨-,-,rfl⟩ | ⟨d,hd,n,t,-,htip,-,-,-,-,-,rfl⟩
  · exact hs.sublist List.filter_sublist rfl rfl
  · refine (hs.drop_tip (fun tip ht x hx => ?_)).current
    rw [htip tip ht] at hx
    exact hx

/-- Every call keeps what is known about the requests. -/
theorem EnforcedNode.RequestsCurrent.call {s : EnforcedNode} (hs : s.RequestsCurrent)
    (c : EnforcerCall) : (s.call h c).RequestsCurrent := by
  cases c with
  | acceptTx tx =>
    unfold EnforcedNode.call
    simp only
    split
    · rename_i ha
      exact hs.acceptTx ha
    · exact hs
    · exact hs
  | connectBlock b =>
    unfold EnforcedNode.call
    simp only
    split
    · rename_i hc
      exact (hs.connectBlock hc).current
    · rename_i hc
      exact hs.connectBlock hc
    · exact hs
  | disconnectBlock hash =>
    unfold EnforcedNode.call
    simp only
    split
    · rename_i hd
      exact hs.disconnectBlock hd
    · exact hs

/-- In every run of calls from an empty mempool, every request in the mempool is for the
block on top of the tip and was seen there, and of two requests for one slot the later
one was accepted with the earlier one as a conflict. -/
theorem requestsCurrent_of_calls (h : BlockHandler) (dbs : Dbs) (calls : List EnforcerCall) :
    (calls.foldl (EnforcedNode.call h) ⟨dbs,[]⟩).RequestsCurrent := by
  have hrun : ∀ (calls : List EnforcerCall) (s : EnforcedNode), s.RequestsCurrent →
      (calls.foldl (EnforcedNode.call h) s).RequestsCurrent := by
    intro calls
    induction calls with
    | nil => exact fun s hs => hs
    | cons c calls ih => exact fun s hs => ih _ (hs.call c)
  exact hrun calls _ (EnforcedNode.NoRequests.current (by intro e he; cases he))

end Requests

section Sample

open Sample BmmSample

/-- Two requests for one slot on top of the tip. -/
example : ((([.acceptTx (requestTx 1 8 genesis.blockHash),
      .acceptTx (requestTx 1 9 genesis.blockHash)] : List EnforcerCall).foldl
    (EnforcedNode.call handler) ⟨run.1,[]⟩).mempool.map MempoolTx.conflictsWith) =
      [[(requestTx 1 8 genesis.blockHash).computeTxid],[]] := by decide +kernel

end Sample

end Bip300301Enforcer
