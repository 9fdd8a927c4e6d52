import Bip300301Enforcer.CoinbaseScan
import Bip300301Enforcer.Lib.Alongside

/-! A block acts through the messages of its coinbase and its other transactions. The rest of
the coinbase only shows in its txid and in the output numbers of the events. -/
namespace Bip300301Enforcer
open Lib Fallible

def BlockEvent.withoutVout : BlockEvent → BlockEvent
  | .sidechainProposal _ proposal => .sidechainProposal 0 proposal
  | event => event

/-- The same tables, diff and events, up to the numbers of the coinbase outputs. -/
structure ProcessedBlock.SameEffect (r r' : ProcessedBlock) : Prop where
  dbs : r.dbs = r'.dbs
  bmmCommitments : r.blockInfo.bmmCommitments = r'.blockInfo.bmmCommitments
  events : r.blockInfo.events.map BlockEvent.withoutVout =
    r'.blockInfo.events.map BlockEvent.withoutVout
  diff : r.diff = r'.diff
  unconsolidatedCtips : r.unconsolidatedCtips = r'.unconsolidatedCtips

/-- Messages that differ in the numbers of their outputs. -/
def SameMessage (e e' : CoinbaseMessage × ℕ) : Prop := e.1 = e'.1

theorem forall₂_sameMessage {l l' : List (CoinbaseMessage × ℕ)}
    (h : l.map Prod.fst = l'.map Prod.fst) : List.Forall₂ SameMessage l l' := by
  have heq : List.Forall₂ (fun a b => a = b) (l.map Prod.fst) (l'.map Prod.fst) := by
    rw [List.forall₂_eq_eq_eq]
    exact h
  rw [List.forall₂_map_left_iff,List.forall₂_map_right_iff] at heq
  exact heq

structure CoinbaseMessages.Same (c c' : CoinbaseMessages) : Prop where
  messages : c.messages.map Prod.fst = c'.messages.map Prod.fst
  m1 : c.m1Index.isSome = c'.m1Index.isSome
  m2 : ∀ s, (c.m2AckSlotToIndex.get? s).isSome = (c'.m2AckSlotToIndex.get? s).isSome
  m3 : c.m3Index.isSome = c'.m3Index.isSome
  m4 : c.m4Index.isSome = c'.m4Index.isSome
  m7 : ∀ s, (c.m7SlotToCommitmentIndex.get? s).isSome = (c'.m7SlotToCommitmentIndex.get? s).isSome

theorem isSome_insert {α β β' : Type} [Ord α] [Std.TransOrd α] [Std.LawfulEqOrd α] [DecidableEq α]
    {m : FinMap α β} {m' : FinMap α β'} (h : ∀ k, (m.get? k).isSome = (m'.get? k).isSome) (a : α)
    (b : β) (b' : β') (k : α) :
    ((m.insert a b).get? k).isSome = ((m'.insert a b').get? k).isSome := by
  rw [FinMap.get?_insert,FinMap.get?_insert]
  split_ifs
  · rfl
  · exact h k

theorem CoinbaseMessages.Same.push {c c' : CoinbaseMessages} (h : c.Same c') (msg : CoinbaseMessage)
    (vout vout' : ℕ) : Alongside CoinbaseMessages.Same (c.push msg vout) (c'.push msg vout') := by
  have hmessages : (c.messages++[(msg,vout)]).map Prod.fst =
      (c'.messages++[(msg,vout')]).map Prod.fst := by
    simp [h.messages]
  cases msg with
  | m1ProposeSidechain s description =>
    have hm := h.m1
    unfold CoinbaseMessages.push
    cases hc : c.m1Index <;> cases hc' : c'.m1Index <;> simp [hc,hc'] at hm ⊢
    · exact ⟨hmessages,rfl,h.m2,h.m3,h.m4,h.m7⟩
    · exact .error _ _
  | m2AckSidechain s descriptionHash =>
    have hm := h.m2 s
    unfold CoinbaseMessages.push
    cases hc : c.m2AckSlotToIndex.get? s <;> cases hc' : c'.m2AckSlotToIndex.get? s <;>
      simp [hc,hc'] at hm ⊢
    · exact ⟨hmessages,h.m1,isSome_insert h.m2 s vout vout',h.m3,h.m4,h.m7⟩
    · exact .error _ _
  | m3ProposeBundle s bundleTxid =>
    have hm := h.m3
    unfold CoinbaseMessages.push
    cases hc : c.m3Index <;> cases hc' : c'.m3Index <;> simp [hc,hc'] at hm ⊢
    · exact ⟨hmessages,h.m1,h.m2,rfl,h.m4,h.m7⟩
    · exact .error _ _
  | m4AckBundles m4 =>
    have hm := h.m4
    unfold CoinbaseMessages.push
    cases hc : c.m4Index <;> cases hc' : c'.m4Index <;> simp [hc,hc'] at hm ⊢
    · exact ⟨hmessages,h.m1,h.m2,h.m3,rfl,h.m7⟩
    · exact .error _ _
  | m7BmmAccept s commitment =>
    have hm := h.m7 s
    unfold CoinbaseMessages.push
    cases hc : c.m7SlotToCommitmentIndex.get? s <;>
      cases hc' : c'.m7SlotToCommitmentIndex.get? s <;> simp [hc,hc'] at hm ⊢
    · exact ⟨hmessages,h.m1,h.m2,h.m3,h.m4,
        isSome_insert h.m7 s (commitment,vout) (commitment,vout')⟩
    · exact .error _ _

structure CoinbaseScan.Same (a a' : CoinbaseScan) : Prop where
  messages : a.messages.Same a'.messages
  proposals : ∀ id,
    (a.m1SidechainProposals.get? id).isSome = (a'.m1SidechainProposals.get? id).isSome

structure CoinbaseState.Same (a a' : CoinbaseState) : Prop where
  dbs : a.dbs = a'.dbs
  acceptedBmmRequests : a.acceptedBmmRequests = a'.acceptedBmmRequests
  events : a.events.map BlockEvent.withoutVout = a'.events.map BlockEvent.withoutVout
  diffs : a.diffs = a'.diffs

structure TxState.Same (a a' : TxState) : Prop where
  dbs : a.dbs = a'.dbs
  unconsolidatedCtips : a.unconsolidatedCtips = a'.unconsolidatedCtips
  bmmRequestSlots : a.bmmRequestSlots = a'.bmmRequestSlots
  events : a.events.map BlockEvent.withoutVout = a'.events.map BlockEvent.withoutVout
  diffs : a.diffs = a'.diffs

theorem CoinbaseState.Same.record {a a' : CoinbaseState} (h : a.Same a') (height : ℕ)
    (d : Option Diff.CoinbaseMsg) :
    Alongside CoinbaseState.Same (a.record height d) (a'.record height d) := by
  cases d with
  | none => exact h
  | some d =>
    unfold CoinbaseState.record
    rw [h.dbs]
    refine (Alongside.refl _).bind (fun dbs dbs' he => ?_)
    exact ⟨he,h.acceptedBmmRequests,h.events,by rw [h.diffs]⟩

theorem TxState.Same.record {a a' : TxState} (h : a.Same a')
    (handled : Option (TransactionEvent × Diff.Tx)) :
    Alongside TxState.Same (a.record handled) (a'.record handled) := by
  cases handled with
  | none => exact h
  | some handled =>
    unfold TxState.record
    rw [h.dbs]
    refine (Alongside.refl _).bind (fun dbs dbs' he => ?_)
    exact ⟨he,h.unconsolidatedCtips,h.bmmRequestSlots,by simp [h.events],by rw [h.diffs]⟩

namespace BlockHandler

variable [Bitcoin] {h : BlockHandler}

def numberedMessages (coinbase : Transaction) : List (CoinbaseMessage × ℕ) :=
  coinbase.output.zipIdx.filterMap
    (fun e => (CoinbaseMessage.parse e.1.scriptPubkey).map (fun msg => (msg,e.2)))

theorem numberedMessages_fst (coinbase : Transaction) :
    (numberedMessages coinbase).map Prod.fst = coinbase.messages := by
  have hfst : (fun e : TxOut × ℕ => CoinbaseMessage.parse e.1.scriptPubkey) =
      (fun out : TxOut => CoinbaseMessage.parse out.scriptPubkey) ∘ Prod.fst := rfl
  simp only [numberedMessages,Transaction.messages,List.map_filterMap,Option.map_map]
  calc _ = coinbase.output.zipIdx.filterMap
        (fun e => CoinbaseMessage.parse e.1.scriptPubkey) := by
        simp [Function.comp_def]
    _ = (coinbase.output.zipIdx.map Prod.fst).filterMap
        (fun out => CoinbaseMessage.parse out.scriptPubkey) := by
        rw [List.filterMap_map,hfst]
    _ = _ := by rw [List.zipIdx_map_fst]

def scanMessage (acc : CoinbaseScan) (e : CoinbaseMessage × ℕ) : Res CoinbaseScan := do
  let proposals := match e.1 with
    | .m1ProposeSidechain s description =>
      let id : SidechainProposalId := ⟨s,sha256d description⟩
      if acc.m1SidechainProposals.contains id then acc.m1SidechainProposals
      else acc.m1SidechainProposals.insert id e.2
    | _ => acc.m1SidechainProposals
  let messages ← (acc.messages.push e.1 e.2).mapError .coinbaseMessages
  return ⟨messages,proposals⟩

theorem scanCoinbase_eq (coinbase : Transaction) :
    scanCoinbase coinbase = (numberedMessages coinbase).foldlM scanMessage ⟨.default,.empty⟩ := by
  unfold scanCoinbase numberedMessages
  rw [List.foldlM_filterMap]
  congr 1
  funext acc e
  unfold scanOutput scanMessage
  cases CoinbaseMessage.parse e.1.scriptPubkey with
  | none => rfl
  | some msg => rfl

theorem scanMessage_same {a a' : CoinbaseScan} {e e' : CoinbaseMessage × ℕ} (hs : a.Same a')
    (he : SameMessage e e') :
    Alongside CoinbaseScan.Same (scanMessage a e) (scanMessage a' e') := by
  obtain ⟨msg,vout⟩ := e
  obtain ⟨msg',vout'⟩ := e'
  obtain rfl : msg = msg' := he
  refine ((hs.messages.push msg vout vout').mapError _ _).bind (fun c c' hc => ⟨hc,?_⟩)
  cases msg with
  | m1ProposeSidechain s description =>
    intro id
    have hid : a.m1SidechainProposals.contains ⟨s,sha256d description⟩ =
        a'.m1SidechainProposals.contains ⟨s,sha256d description⟩ := hs.proposals _
    simp only [hid]
    split_ifs
    · exact hs.proposals id
    · exact isSome_insert hs.proposals _ vout vout' id
  | m2AckSidechain s descriptionHash => exact hs.proposals
  | m3ProposeBundle s bundleTxid => exact hs.proposals
  | m4AckBundles m4 => exact hs.proposals
  | m7BmmAccept s commitment => exact hs.proposals

theorem scanCoinbase_same {coinbase coinbase' : Transaction}
    (hm : coinbase.messages = coinbase'.messages) :
    Alongside CoinbaseScan.Same (scanCoinbase coinbase) (scanCoinbase coinbase') := by
  have hmessages : (numberedMessages coinbase).map Prod.fst =
      (numberedMessages coinbase').map Prod.fst := by
    rw [numberedMessages_fst,numberedMessages_fst,hm]
  rw [scanCoinbase_eq,scanCoinbase_eq]
  refine Alongside.foldlM (forall₂_sameMessage hmessages)
    (fun a a' e e' he hs => scanMessage_same hs he) ?_
  exact ⟨⟨rfl,rfl,fun _ => rfl,rfl,rfl,fun _ => rfl⟩,fun _ => rfl⟩

theorem messageEvent_same {proposals proposals' : FinMap SidechainProposalId ℕ}
    (hp : ∀ id, (proposals.get? id).isSome = (proposals'.get? id).isSome)
    (event : Option CoinbaseMessageEvent) :
    Alongside (fun l l' => l.map BlockEvent.withoutVout = l'.map BlockEvent.withoutVout)
      (messageEvent proposals event) (messageEvent proposals' event) := by
  cases event with
  | none => exact rfl
  | some event =>
    cases event with
    | withdrawalBundle event => exact rfl
    | newSidechainProposal sidechain =>
      have hid := hp sidechain.proposal.computeId
      unfold messageEvent
      cases hg : proposals.get? sidechain.proposal.computeId <;>
        cases hg' : proposals'.get? sidechain.proposal.computeId <;> simp [hg,hg'] at hid ⊢
      · exact .error _ _
      · rfl

theorem connectMessage_same {proposals proposals' : FinMap SidechainProposalId ℕ}
    (hp : ∀ id, (proposals.get? id).isSome = (proposals'.get? id).isSome) (height : ℕ)
    (parent : BlockHash) (prevDiff : Option Diff.Block) {a a' : CoinbaseState}
    {e e' : CoinbaseMessage × ℕ} (hs : a.Same a') (he : SameMessage e e') :
    Alongside CoinbaseState.Same (h.connectMessage height parent prevDiff proposals a e)
      (h.connectMessage height parent prevDiff proposals' a' e') := by
  unfold connectMessage
  rw [show e.1 = e'.1 from he,hs.dbs,hs.acceptedBmmRequests]
  refine (Alongside.refl _).bind (fun r r' hr => ?_)
  obtain rfl := hr
  refine (messageEvent_same hp r.1).bind (fun events events' hevents => ?_)
  refine CoinbaseState.Same.record ?_ height r.2.1
  exact ⟨rfl,rfl,by simp [hs.events,hevents],hs.diffs⟩

omit [Bitcoin] in
theorem connectMissingM4_same (height : ℕ) (parent : BlockHash) (prevDiff : Option Diff.Block)
    (m4Exists : Bool) {a a' : CoinbaseState} (hs : a.Same a') :
    Alongside CoinbaseState.Same (connectMissingM4 height parent prevDiff m4Exists a)
      (connectMissingM4 height parent prevDiff m4Exists a') := by
  unfold connectMissingM4
  split_ifs
  · exact hs
  · rw [hs.dbs]
    refine (Alongside.refl _).bind (fun d d' hd => ?_)
    obtain rfl := hd
    exact hs.record height _

theorem connectCoinbase_same (dbs : ConsensusDbs) (height : ℕ) (parent : BlockHash)
    (prevDiff : Option Diff.Block) {coinbase coinbase' : Transaction}
    (hm : coinbase.messages = coinbase'.messages) :
    Alongside (fun r r' => r.1 = r'.1 ∧ r.2.1 = r'.2.1 ∧
        r.2.2.1.map BlockEvent.withoutVout = r'.2.2.1.map BlockEvent.withoutVout ∧
        r.2.2.2 = r'.2.2.2)
      (h.connectCoinbase dbs height parent prevDiff coinbase)
      (h.connectCoinbase dbs height parent prevDiff coinbase') := by
  unfold connectCoinbase
  refine (scanCoinbase_same hm).bind (fun scan scan' hscan => ?_)
  have hfold := Alongside.foldlM (forall₂_sameMessage hscan.messages.messages)
    (fun a a' e e' he hs => connectMessage_same (h := h) hscan.proposals height parent prevDiff hs he)
    (⟨rfl,rfl,rfl,rfl⟩ : CoinbaseState.Same ⟨dbs,.empty,[],[]⟩ ⟨dbs,.empty,[],[]⟩)
  refine hfold.bind (fun a a' hs => ?_)
  have hm4 : scan.messages.m4Exists = scan'.messages.m4Exists := hscan.messages.m4
  rw [hm4]
  refine (connectMissingM4_same height parent prevDiff _ hs).bind (fun a a' hs => ?_)
  rw [hs.dbs]
  refine (Alongside.refl _).bind (fun failed failed' hfailed => ?_)
  obtain rfl := hfailed
  refine (Alongside.refl _).bind (fun active active' hactive => ?_)
  obtain rfl := hactive
  exact ⟨rfl,hs.acceptedBmmRequests,by simp [hs.events],by rw [hs.diffs]⟩

theorem connectTx_same (accepted : BmmCommitments) (parent blockHash blockHash' : BlockHash)
    {a a' : TxState} (tx : Transaction) (hs : a.Same a') :
    Alongside TxState.Same (h.connectTx accepted parent blockHash a tx)
      (h.connectTx accepted parent blockHash' a' tx) := by
  unfold connectTx
  rw [hs.dbs,hs.unconsolidatedCtips,hs.bmmRequestSlots]
  refine ((Alongside.refl _).mapError _ _).bind (fun r r' hr => ?_)
  obtain rfl := hr
  refine (Alongside.refl _).bind (fun slots slots' hslots => ?_)
  obtain rfl := hslots
  have hsame : TxState.Same ⟨a'.dbs,r.2,slots,a.events,a.diffs⟩ ⟨a'.dbs,r.2,slots,a'.events,a'.diffs⟩ :=
    ⟨rfl,rfl,rfl,hs.events,hs.diffs⟩
  exact hsame.record r.1

/-- Blocks whose coinbases have the same messages, and that have the same other transactions,
are judged alike. -/
theorem processBlock_same (dbs : ConsensusDbs) (height : ℕ) (parent blockHash blockHash' : BlockHash)
    (prevDiff : Option Diff.Block) {coinbase coinbase' : Transaction} (txs : List Transaction)
    (hm : coinbase.messages = coinbase'.messages) :
    Alongside ProcessedBlock.SameEffect
      (h.processBlock dbs height parent blockHash prevDiff coinbase txs)
      (h.processBlock dbs height parent blockHash' prevDiff coinbase' txs) := by
  unfold processBlock
  split_ifs
  · exact ⟨rfl,rfl,rfl,rfl,rfl⟩
  · refine (connectCoinbase_same dbs height parent prevDiff hm).bind (fun r r' hr => ?_)
    obtain ⟨dbs₁,accepted,events,diff⟩ := r
    obtain ⟨dbs₁',accepted',events',diff'⟩ := r'
    obtain ⟨rfl,rfl,hevents,rfl⟩ := hr
    have hsame : List.Forall₂ (fun tx tx' => tx = tx') txs txs :=
      List.forall₂_same.mpr (fun _ _ => rfl)
    have hfold : Alongside TxState.Same
        (txs.foldlM (h.connectTx accepted parent blockHash) ⟨dbs₁.activeSidechains,.default,[],events,[]⟩)
        (txs.foldlM (h.connectTx accepted parent blockHash')
          ⟨dbs₁.activeSidechains,.default,[],events',[]⟩) := by
      refine Alongside.foldlM hsame (fun a a' tx tx' he hs => ?_) ⟨rfl,rfl,rfl,hevents,rfl⟩
      obtain rfl := he
      exact connectTx_same accepted parent blockHash blockHash' tx hs
    refine hfold.bind (fun a a' hs => ?_)
    exact ⟨by rw [hs.dbs],rfl,hs.events,by rw [hs.diffs],hs.unconsolidatedCtips⟩

end BlockHandler

end Bip300301Enforcer
