import Bip300301Enforcer.MempoolRun

/-! The BMM requests that the mempool accepts without conflicts, and a coinbase that accepts all
of them. -/
namespace Bip300301Enforcer
open Lib Chain BlockHandler

section Mempool

variable [Bitcoin] {h : BlockHandler} {other : Transaction → Prop} {dbs : Dbs} {l : List Admission}

theorem Admits.requestsCurrent (ha : Admits h other dbs l) (mempool : List MempoolTx)
    (hs : (EnforcedNode.mk dbs mempool).RequestsCurrent) : ∃ dbs' mempool',
      (EnforcedNode.mk dbs' mempool').RequestsCurrent ∧
      dbs'.currentChainTip = dbs.currentChainTip ∧
      ((l.map (fun e => MempoolTx.mk e.tx e.conflictsWith)).reverse++mempool).Sublist mempool' := by
  induction ha generalizing mempool with
  | done => exact ⟨_,mempool,hs,rfl,List.Sublist.refl _⟩
  | other apart called rest ih =>
    rename_i action _ _
    cases action with
    | reject =>
      obtain ⟨-,-,heq⟩ := acceptTxWithPayout_ok called
      rw [heq] at ih
      exact ih mempool hs
    | accept conflictsWith weight =>
      obtain ⟨dbs₂,mempool₂,hs₂,htip,hsub⟩ := ih _ (hs.acceptTx called)
      refine ⟨dbs₂,mempool₂,hs₂,htip.trans (acceptTxWithPayout_ok called).2.1,?_⟩
      exact (List.Sublist.append_left (List.sublist_cons_self ..) _).trans hsub
  | accept accepted rest ih =>
    obtain ⟨dbs₂,mempool₂,hs₂,htip,hsub⟩ := ih _ (hs.acceptTx accepted)
    refine ⟨dbs₂,mempool₂,hs₂,htip.trans (acceptTxWithPayout_ok accepted).2.1,?_⟩
    simpa using hsub

theorem Admits.requests (ha : Admits h other dbs l)
    (htxids : (l.map (fun e => e.tx.computeTxid)).Nodup)
    (hconflicts : ∀ e ∈ l, ∀ e' ∈ l, e'.tx ≠ e.tx → e'.tx.computeTxid ∉ e.conflictsWith) :
    (∀ r ∈ l.filterMap (fun e => parseM8Tx e.tx), dbs.currentChainTip = some r.prevMainchainBlockHash) ∧
      ((l.filterMap (fun e => parseM8Tx e.tx)).map M8BmmRequest.sidechainNumber).Nodup := by
  have hnone : EnforcedNode.NoRequests [] := fun e he => absurd he List.not_mem_nil
  obtain ⟨dbs',mempool',hs,htip,hsub⟩ := ha.requestsCurrent [] hnone.current
  rw [List.append_nil] at hsub
  constructor
  · intro r hr
    obtain ⟨e,he,hr⟩ := List.mem_filterMap.mp hr
    rw [← htip]
    refine hs.tip ⟨e.tx,e.conflictsWith⟩ (hsub.subset ?_) r hr
    rw [List.mem_reverse]
    exact List.mem_map.mpr ⟨e,he,rfl⟩
  · have hpair := hs.conflicts.sublist hsub
    rw [List.pairwise_reverse,List.pairwise_map] at hpair
    rw [List.Nodup,List.pairwise_map] at htxids
    rw [List.Nodup,List.pairwise_map,List.pairwise_filterMap]
    refine (hpair.and htxids).imp_of_mem ?_
    rintro e e' he he' ⟨hboth,hne⟩ r hr r' hr' hslot
    refine hconflicts e' he' e he (fun htx => hne (by rw [htx])) ?_
    exact hboth r' r hr' hr hslot.symm (Ne.symm hne)

end Mempool

section Coinbase

variable [Bitcoin] {h : BlockHandler} {t : ConsensusDbs} {n : ℕ} {parent : BlockHash}
  {prevDiff : Option Diff.Block} {coinbase : Transaction}

/-- A coinbase is read if its only messages accept blocks of different slots. -/
theorem scanCoinbase_accepts (hm7 : ∀ m ∈ coinbase.messages, m.m7Commitment.isSome = true)
    (hslots : ((coinbase.messages.filterMap CoinbaseMessage.m7Commitment).map Prod.fst).Nodup) :
    ∃ scan, scanCoinbase coinbase = .ok scan := by
  have hread : ∀ l : List (TxOut × ℕ), (l.filterMap (fun e => CoinbaseMessage.parse e.1.scriptPubkey)) =
      (l.map Prod.fst).filterMap (fun out => CoinbaseMessage.parse out.scriptPubkey) := by
    intro l
    rw [List.filterMap_map]
    rfl
  have hspec := Fallible.foldlM_succeeds (f := scanOutput) (s := ⟨.default,.empty⟩)
    (l := coinbase.output.zipIdx) (fun done acc => ∀ s,
      acc.messages.m7SlotToCommitmentIndex.contains s = true →
      s ∈ ((done.filterMap (fun e : TxOut × ℕ => CoinbaseMessage.parse e.1.scriptPubkey)).filterMap
        CoinbaseMessage.m7Commitment).map Prod.fst) ?_ ?_
  · obtain ⟨scan,hscan,-⟩ := hspec
    exact ⟨scan,hscan⟩
  · intro s hs
    simp [CoinbaseMessages.default,FinMap.contains] at hs
  · rintro done ⟨out,i⟩ rest acc hsplit hI
    have hmsgs : coinbase.messages =
        (done.filterMap (fun e : TxOut × ℕ => CoinbaseMessage.parse e.1.scriptPubkey))++
        (((out,i)::rest).filterMap (fun e : TxOut × ℕ => CoinbaseMessage.parse e.1.scriptPubkey)) := by
      rw [Transaction.messages,← List.filterMap_append,← hsplit,hread,List.zipIdx_map_fst]
    unfold scanOutput
    cases hp : CoinbaseMessage.parse out.scriptPubkey with
    | none => exact ⟨acc,rfl,by simpa [hp] using hI⟩
    | some msg =>
      rw [List.filterMap_cons_some (by exact hp)] at hmsgs
      have hmem : msg ∈ coinbase.messages := by rw [hmsgs]; simp
      cases msg with
      | m7BmmAccept s commitment =>
        have hnew : acc.messages.m7SlotToCommitmentIndex.get? s = none := by
          rw [← FinMap.contains_false_iff,← Bool.not_eq_true]
          intro hs
          have hin := hI s hs
          rw [hmsgs,List.filterMap_append,List.map_append,List.nodup_append] at hslots
          exact hslots.2.2 s hin s (by simp [CoinbaseMessage.m7Commitment]) rfl
        simp only [CoinbaseMessages.push,hnew,Except.mapError,Fallible.ok_bind]
        refine ⟨_,rfl,fun s' hs' => ?_⟩
        rw [FinMap.contains_insert,Bool.or_eq_true,decide_eq_true_eq] at hs'
        rw [List.filterMap_append,List.filterMap_append,List.map_append,List.mem_append]
        rcases hs' with rfl | hs'
        · exact .inr (by simp [hp,CoinbaseMessage.m7Commitment])
        · exact .inl (hI s' hs')
      | m1ProposeSidechain _ _ => cases hm7 _ hmem
      | m2AckSidechain _ _ => cases hm7 _ hmem
      | m3ProposeBundle _ _ => cases hm7 _ hmem
      | m4AckBundles _ => cases hm7 _ hmem

theorem ran_accepts {msgs : List CoinbaseMessage} {t' : ConsensusDbs} {ds : List Diff.CoinbaseMsg}
    (hr : Ran h n parent prevDiff t msgs t' ds) (hm7 : ∀ m ∈ msgs, m.m7Commitment.isSome = true) :
    t' = t := by
  induction hr with
  | start => rfl
  | ignored ran handled ih => exact ih (fun m hm => hm7 m (List.mem_append_left _ hm))
  | applied ran handled apply ih =>
    rename_i msg e d
    have hm := hm7 msg (by simp)
    cases msg with
    | m7BmmAccept _ _ => cases handled
    | m1ProposeSidechain _ _ => cases hm
    | m2AckSidechain _ _ => cases hm
    | m3ProposeBundle _ _ => cases hm
    | m4AckBundles _ => cases hm

/-- A coinbase that accepts requests for different slots, and does nothing else, is accepted:
the commitments are noted, and the bundles that are too old fail. -/
theorem connectCoinbase_accepts (hw : t.Wf) {requests : List M8BmmRequest}
    (hmsgs : coinbase.messages.Perm (requests.map M8BmmRequest.accept))
    (hslots : (requests.map M8BmmRequest.sidechainNumber).Nodup) :
    ∃ t₂ accepted events d m,
      h.connectCoinbase t n parent prevDiff coinbase = .ok (t₂,accepted,events,d) ∧
      (∀ r ∈ requests, accepted.get? r.sidechainNumber = some r.sidechainBlockHash) ∧
      t₂.activeSidechains = { t.activeSidechains with pendingM6ids := m } ∧
      ∀ s p, t.activeSidechains.pendingM6ids.get? s = some p → ∃ q, m.get? s = some q ∧
        q.entries = p.entries.filter (fun e => !h.expired n e) := by
  have hm7 : ∀ m ∈ coinbase.messages, m.m7Commitment.isSome = true := by
    intro m hm
    obtain ⟨r,-,rfl⟩ := List.mem_map.mp (hmsgs.subset hm)
    rfl
  have hcommits : (coinbase.messages.filterMap CoinbaseMessage.m7Commitment).Perm
      (requests.map (fun r => (r.sidechainNumber,r.sidechainBlockHash))) := by
    refine (hmsgs.filterMap _).trans (List.Perm.of_eq ?_)
    rw [List.filterMap_map]
    exact congrFun List.filterMap_eq_map requests
  have hnodup : ((coinbase.messages.filterMap CoinbaseMessage.m7Commitment).map Prod.fst).Nodup := by
    refine (hcommits.map Prod.fst).nodup_iff.mpr ?_
    rw [List.map_map]
    exact hslots
  obtain ⟨scan,hscan⟩ := scanCoinbase_accepts hm7 hnodup
  have hfails : Fallible.FailsOnly (fun _ => False)
      (h.connectCoinbase t n parent prevDiff coinbase) := by
    refine connectCoinbase_fails hw (.of_ok hscan) ?_
    intro done msg rest t' ds accepted hsplit _ haccepted
    have hmem : msg ∈ coinbase.messages := by rw [hsplit]; simp
    have hm := hm7 msg hmem
    cases msg with
    | m7BmmAccept s commitment =>
      have hnew : accepted.contains s = false := by
        rw [← Bool.not_eq_true,OrderMap.contains_iff,OrderMap.keys,haccepted]
        intro hin
        rw [hsplit,List.filterMap_append,List.map_append,List.nodup_append] at hnodup
        exact hnodup.2.2 s hin s (by simp [CoinbaseMessage.m7Commitment]) rfl
      simp only [handleCoinbaseMessage,hnew]
      exact .ok _
    | m1ProposeSidechain _ _ => cases hm
    | m2AckSidechain _ _ => cases hm
    | m3ProposeBundle _ _ => cases hm
    | m4AckBundles _ => cases hm
  obtain ⟨⟨t₂,accepted,events,d⟩,hc⟩ := hfails.succeeds
  obtain ⟨scan',t₁,hdone⟩ := connectCoinbase_ok hc
  have hsame := ran_accepts hdone.ran (by
    rw [(scanCoinbase_ok hdone.scanned).1]
    exact hm7)
  subst hsame
  obtain ⟨m,hm,hkeep,-⟩ := failedM6ids_apply hw.tables hdone.failedM6ids hdone.applied
  refine ⟨t₂,accepted,events,d,m,hc,?_,hm,hkeep⟩
  intro r hr
  rw [← OrderMap.mem_entries,connectCoinbase_accepted hc]
  exact hcommits.symm.subset (List.mem_map.mpr ⟨r,hr,rfl⟩)

end Coinbase

end Bip300301Enforcer
