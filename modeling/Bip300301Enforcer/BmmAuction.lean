import Bip300301Enforcer.BmmMempool
import Bip300301Enforcer.BuilderCalls
import Bip300301Enforcer.MessageCanonical

/-! The auction of BMM requests: the bids that are kept out of a template, and the requests that
the coinbase accepts. -/
namespace Bip300301Enforcer
open Lib

namespace BlockProducer

abbrev SeenBid := SidechainNumber × BmmCommitment × Txid

def knownBids (bmmBidFee : Txid → Option ℕ) (seen : List SeenBid) :
    List (SidechainNumber × BmmCommitment × Txid × ℕ) :=
  seen.filterMap (fun (s,commitment,txid) =>
    (bmmBidFee txid).map (fun fee => (s,commitment,txid,fee)))

/-- The first of the highest bids of each slot. -/
def bmmAuctionWinners (bids : List (SidechainNumber × BmmCommitment × Txid × ℕ)) :
    FinMap SidechainNumber (BmmCommitment × Txid × ℕ) :=
  bids.foldl (fun winners (s,commitment,txid,fee) =>
    let winner := (winners.get? s).getD (commitment,txid,fee)
    winners.insert s (if winner.2.2 < fee then (commitment,txid,fee) else winner)) .empty

/-- The seen requests that did not win their slot. -/
def losingBids (winners : FinMap SidechainNumber (BmmCommitment × Txid × ℕ)) (seen : List SeenBid) :
    List Txid :=
  (seen.filter (fun (s,_,txid) => some txid ≠ (winners.get? s).map (fun w => w.2.1))).map
    (fun e => e.2.2)

/-- The transactions that are kept out of a template: payouts that are not payable, and bids that
did not win. The maps of seen requests are visited twice. -/
def excludeMempoolTxs (unpayable : List Txid) (bmmBidFee : Txid → Option ℕ)
    (visited visited' : List SeenBid) : List Txid :=
  unpayable++losingBids (bmmAuctionWinners (knownBids bmmBidFee visited)) visited'

section Auction

variable {bmmBidFee : Txid → Option ℕ} {bids : List (SidechainNumber × BmmCommitment × Txid × ℕ)}
  {seen visited visited' : List SeenBid} {unpayable : List Txid} {s : SidechainNumber}

/-- A slot's winner is one of its bids, and none of them is higher. -/
theorem bmmAuctionWinners_spec (bids : List (SidechainNumber × BmmCommitment × Txid × ℕ))
    (s : SidechainNumber) :
    match (bmmAuctionWinners bids).get? s with
    | none => ∀ b ∈ bids, b.1 ≠ s
    | some w => (s,w) ∈ bids ∧ ∀ b ∈ bids, b.1 = s → b.2.2.2 ≤ w.2.2 := by
  induction bids using List.reverseRecOn with
  | nil => simp [bmmAuctionWinners]
  | append_singleton bids b ih =>
    obtain ⟨slot,commitment,txid,fee⟩ := b
    have hstep : (bmmAuctionWinners (bids++[(slot,commitment,txid,fee)])) =
        (bmmAuctionWinners bids).insert slot
          (if (((bmmAuctionWinners bids).get? slot).getD (commitment,txid,fee)).2.2 < fee then
            (commitment,txid,fee) else
            ((bmmAuctionWinners bids).get? slot).getD (commitment,txid,fee)) := by
      rw [bmmAuctionWinners,List.foldl_append]
      rfl
    rw [hstep,FinMap.get?_insert]
    by_cases hs : slot = s
    · subst hs
      rw [if_pos rfl]
      cases hw : (bmmAuctionWinners bids).get? slot with
      | none =>
        rw [hw] at ih
        simp only [Option.getD_none,Nat.lt_irrefl,if_false]
        refine ⟨by simp,fun b hb hbs => ?_⟩
        rcases List.mem_append.mp hb with hb | hb
        · exact absurd hbs (ih b hb)
        · rw [List.mem_singleton.mp hb]
      | some w =>
        rw [hw] at ih
        obtain ⟨hmem,hmax⟩ := ih
        simp only [Option.getD_some]
        split
        · rename_i hlt
          refine ⟨by simp,fun b hb hbs => ?_⟩
          rcases List.mem_append.mp hb with hb | hb
          · exact (hmax b hb hbs).trans (Nat.le_of_lt hlt)
          · rw [List.mem_singleton.mp hb]
        · rename_i hle
          refine ⟨List.mem_append_left _ hmem,fun b hb hbs => ?_⟩
          rcases List.mem_append.mp hb with hb | hb
          · exact hmax b hb hbs
          · rw [List.mem_singleton.mp hb]
            exact Nat.not_lt.mp hle
    · rw [if_neg hs]
      cases hw : (bmmAuctionWinners bids).get? s with
      | none =>
        rw [hw] at ih
        intro b hb
        rcases List.mem_append.mp hb with hb | hb
        · exact ih b hb
        · rw [List.mem_singleton.mp hb]
          exact hs
      | some w =>
        rw [hw] at ih
        refine ⟨List.mem_append_left _ ih.1,fun b hb hbs => ?_⟩
        rcases List.mem_append.mp hb with hb | hb
        · exact ih.2 b hb hbs
        · rw [List.mem_singleton.mp hb] at hbs
          exact absurd hbs hs

theorem mem_knownBids {b : SidechainNumber × BmmCommitment × Txid × ℕ} :
    b ∈ knownBids bmmBidFee seen ↔
      (b.1,b.2.1,b.2.2.1) ∈ seen ∧ bmmBidFee b.2.2.1 = some b.2.2.2 := by
  obtain ⟨s,commitment,txid,fee⟩ := b
  simp only [knownBids,List.mem_filterMap,Option.map_eq_some_iff]
  constructor
  · rintro ⟨e,he,fee',hfee,heq⟩
    obtain ⟨rfl,rfl,rfl,rfl⟩ : e.1 = s ∧ e.2.1 = commitment ∧ e.2.2 = txid ∧ fee' = fee := by
      simpa using heq
    exact ⟨he,hfee⟩
  · rintro ⟨he,hfee⟩
    exact ⟨_,he,fee,hfee,rfl⟩

theorem winner_of_slot (hperm : visited.Perm seen) {w : BmmCommitment × Txid × ℕ}
    (hw : (bmmAuctionWinners (knownBids bmmBidFee visited)).get? s = some w) :
    (s,w.1,w.2.1) ∈ seen ∧ bmmBidFee w.2.1 = some w.2.2 ∧
      ∀ e ∈ seen, e.1 = s → ∀ fee, bmmBidFee e.2.2 = some fee → fee ≤ w.2.2 := by
  have hspec := bmmAuctionWinners_spec (knownBids bmmBidFee visited) s
  rw [hw] at hspec
  obtain ⟨hmem,hmax⟩ := hspec
  obtain ⟨hseen,hfee⟩ := mem_knownBids.mp hmem
  refine ⟨hperm.mem_iff.mp hseen,hfee,fun e he hes fee hf => ?_⟩
  exact hmax (e.1,e.2.1,e.2.2,fee) (mem_knownBids.mpr ⟨hperm.mem_iff.mpr he,hf⟩) hes

theorem winner_none_iff (hperm : visited.Perm seen) :
    (bmmAuctionWinners (knownBids bmmBidFee visited)).get? s = none ↔
      ∀ e ∈ seen, e.1 = s → bmmBidFee e.2.2 = none := by
  have hspec := bmmAuctionWinners_spec (knownBids bmmBidFee visited) s
  constructor
  · intro hw e he hes
    rw [hw] at hspec
    cases hf : bmmBidFee e.2.2 with
    | none => rfl
    | some fee =>
      exact absurd hes (hspec (e.1,e.2.1,e.2.2,fee) (mem_knownBids.mpr ⟨hperm.mem_iff.mpr he,hf⟩))
  · intro hnone
    cases hw : (bmmAuctionWinners (knownBids bmmBidFee visited)).get? s with
    | none => rfl
    | some w =>
      obtain ⟨hseen,hfee,-⟩ := winner_of_slot hperm hw
      rw [hnone _ hseen rfl] at hfee
      cases hfee

/-- A request is for one slot and one commitment, so its transaction tells which. -/
def OnePerTx (seen : List SeenBid) : Prop := ∀ e ∈ seen, ∀ e' ∈ seen, e.2.2 = e'.2.2 → e = e'

theorem mem_losingBids (hone : OnePerTx seen) (hperm : visited'.Perm seen)
    {winners : FinMap SidechainNumber (BmmCommitment × Txid × ℕ)} {e : SeenBid} (he : e ∈ seen) :
    e.2.2 ∈ losingBids winners visited' ↔ ∀ w, winners.get? e.1 = some w → w.2.1 ≠ e.2.2 := by
  simp only [losingBids,List.mem_map,List.mem_filter,decide_eq_true_eq]
  constructor
  · rintro ⟨e',⟨he',hlost⟩,htxid⟩ w hw
    obtain rfl := hone e' (hperm.mem_iff.mp he') e he htxid
    rw [hw] at hlost
    exact fun heq => hlost (congrArg some heq.symm)
  · intro hlost
    refine ⟨e,⟨hperm.mem_iff.mpr he,fun heq => ?_⟩,rfl⟩
    obtain ⟨w,hw,hwe⟩ := Option.map_eq_some_iff.mp heq.symm
    exact hlost w hw hwe

/-- Of the bids of a slot, the best one is left, and no other. -/
theorem excludeMempoolTxs_spec (bmmBidFee : Txid → Option ℕ) (hone : OnePerTx seen)
    (hperm : visited.Perm seen) (hperm' : visited'.Perm seen) (hpay : ∀ e ∈ seen, e.2.2 ∉ unpayable) (s : SidechainNumber) :
    if ∃ e ∈ seen, e.1 = s ∧ (bmmBidFee e.2.2).isSome = true then
      ∃ e ∈ seen, ∃ fee, e.1 = s ∧ bmmBidFee e.2.2 = some fee ∧
        (∀ e' ∈ seen, e'.1 = s →
          (e'.2.2 ∉ excludeMempoolTxs unpayable bmmBidFee visited visited' ↔ e' = e)) ∧
        ∀ e' ∈ seen, e'.1 = s → ∀ fee', bmmBidFee e'.2.2 = some fee' → fee' ≤ fee
    else ∀ e ∈ seen, e.1 = s → e.2.2 ∈ excludeMempoolTxs unpayable bmmBidFee visited visited' := by
  have hexcluded : ∀ e ∈ seen, (e.2.2 ∈ excludeMempoolTxs unpayable bmmBidFee visited visited' ↔
      ∀ w, (bmmAuctionWinners (knownBids bmmBidFee visited)).get? e.1 = some w → w.2.1 ≠ e.2.2) := by
    intro e he
    rw [excludeMempoolTxs,List.mem_append,or_iff_right (hpay e he)]
    exact mem_losingBids hone hperm' he
  cases hw : (bmmAuctionWinners (knownBids bmmBidFee visited)).get? s with
  | none =>
    have hnone := (winner_none_iff hperm).mp hw
    rw [if_neg]
    · rintro e he rfl
      rw [hexcluded e he,hw]
      intro w hw'
      cases hw'
    · rintro ⟨e,he,hes,hfee⟩
      rw [hnone e he hes] at hfee
      cases hfee
  | some w =>
    obtain ⟨hseen,hfee,hmax⟩ := winner_of_slot hperm hw
    rw [if_pos ⟨_,hseen,rfl,by rw [hfee]; rfl⟩]
    refine ⟨_,hseen,w.2.2,rfl,hfee,?_,hmax⟩
    rintro e he rfl
    rw [hexcluded e he,hw]
    constructor
    · intro hnot
      have htxid : w.2.1 = e.2.2 := by
        by_contra hne
        refine hnot (fun w' hw' => ?_)
        obtain rfl := Option.some.inj hw'
        exact hne
      exact hone e he _ hseen htxid.symm
    · rintro heq hnot
      refine hnot w rfl ?_
      rw [heq]

end Auction

end BlockProducer

namespace CoinbaseMessages

def m7BmmAcceptSlotVout (c : CoinbaseMessages) (slot : SidechainNumber) : Option ℕ :=
  (c.m7SlotToCommitmentIndex.get? slot).map Prod.snd

def m7s (c : CoinbaseMessages) : List (SidechainNumber × BmmCommitment) :=
  (c.messages.map Prod.fst).filterMap CoinbaseMessage.m7Commitment

/-- The index knows exactly the slots of the accepted requests. -/
def M7sIndexed (c : CoinbaseMessages) : Prop :=
  ∀ s, (c.m7BmmAcceptSlotVout s).isSome = true ↔ s ∈ c.m7s.map Prod.fst

variable {c c' : CoinbaseMessages} {msg : CoinbaseMessage} {vout : ℕ}

theorem m7s_push (hp : c.push msg vout = .ok c') :
    c'.m7s = c.m7s++(CoinbaseMessage.m7Commitment msg).toList :=
  filterMap_push CoinbaseMessage.m7Commitment hp

theorem M7sIndexed.push (h : c.M7sIndexed) (hp : c.push msg vout = .ok c') : c'.M7sIndexed := by
  intro s
  rw [m7s_push hp]
  unfold CoinbaseMessages.push at hp
  cases msg with
  | m7BmmAccept slot commitment =>
    simp only at hp
    split at hp
    · cases hp
    · obtain rfl := Except.ok.inj hp
      rw [m7BmmAcceptSlotVout,FinMap.get?_insert,CoinbaseMessage.m7Commitment,List.map_append,
        List.mem_append,← h s]
      split
      · rename_i heq
        simp [heq]
      · rename_i hne
        simp [m7BmmAcceptSlotVout,Ne.symm hne]
  | _ =>
    simp only at hp
    split at hp
    · cases hp
    · obtain rfl := Except.ok.inj hp
      simpa [CoinbaseMessage.m7Commitment,m7BmmAcceptSlotVout] using h s

theorem m7sIndexed_new [Bitcoin] {outs : List TxOut} (hn : new outs = .ok c) : c.M7sIndexed := by
  rw [new,readOutput_pushAll] at hn
  exact Fallible.foldlM_invariant M7sIndexed hn (fun s => by simp [default,m7BmmAcceptSlotVout,m7s])
    (fun _ _ _ _ hc hp => hc.push hp)

end CoinbaseMessages

namespace BlockProducer

def acceptBmmRequests (builder : CoinbaseBuilder) (prefixTxs : List Transaction) :
    Except CoinbaseMessagesError CoinbaseBuilder :=
  prefixTxs.foldlM (fun builder tx =>
    match parseM8Tx tx with
    | some request =>
      if (builder.messages.m7BmmAcceptSlotVout request.sidechainNumber).isNone then
        builder.bmmAccept request.sidechainNumber request.sidechainBlockHash
      else .ok builder
    | none => .ok builder) builder

section Accept

variable {b₀ b : CoinbaseBuilder} {msgs : List CoinbaseMessage}

def openRequests (b : CoinbaseBuilder) (txs : List Transaction) : List M8BmmRequest :=
  (txs.filterMap parseM8Tx).filter (fun r => r.sidechainNumber ∉ b.messages.m7s.map Prod.fst)

theorem bmmAccept_succeeds (hold : b₀.Old) (hb : b₀.Added b msgs) (hindex : b.messages.M7sIndexed)
    (r : M8BmmRequest) (hopen : r.sidechainNumber ∉ b.messages.m7s.map Prod.fst) :
    ∃ b', b.bmmAccept r.sidechainNumber r.sidechainBlockHash = .ok b' ∧
      b₀.Added b' (msgs++[r.accept]) ∧ b'.messages.M7sIndexed ∧
      b'.messages.m7s = b.messages.m7s++[(r.sidechainNumber,r.sidechainBlockHash)] := by
  have hnone : b.messages.m7SlotToCommitmentIndex.get? r.sidechainNumber = none := by
    have hnot := mt (hindex r.sidechainNumber).mp hopen
    simpa [CoinbaseMessages.m7BmmAcceptSlotVout] using hnot
  obtain ⟨messages,hm⟩ : ∃ messages, b.messages.push r.accept b.nextVoutIndex = .ok messages := by
    simp only [CoinbaseMessages.push,M8BmmRequest.accept,hnone]
    exact ⟨_,rfl⟩
  have hp : b.push r.accept = .ok { b with messages } := by
    rw [CoinbaseBuilder.push,hm]
    rfl
  exact ⟨_,hp,hb.push hold hp,hindex.push hm,CoinbaseMessages.m7s_push hm⟩

/-- Requests for different slots are accepted, but for the slots that have an accepted one. -/
theorem acceptBmmRequests_succeeds (hold : b₀.Old) (hb : b₀.Added b msgs)
    (hindex : b.messages.M7sIndexed) {txs : List Transaction}
    (hslots : ((txs.filterMap parseM8Tx).map M8BmmRequest.sidechainNumber).Nodup) :
    ∃ b', acceptBmmRequests b txs = .ok b' ∧
      b₀.Added b' (msgs++(openRequests b txs).map M8BmmRequest.accept) := by
  induction txs generalizing b msgs with
  | nil => exact ⟨b,rfl,by simpa [openRequests] using hb⟩
  | cons tx txs ih =>
    rw [acceptBmmRequests,List.foldlM_cons]
    cases hr : parseM8Tx tx with
    | none =>
      rw [List.filterMap_cons_none hr] at hslots
      obtain ⟨b',hacc,hadd⟩ := ih hb hindex hslots
      refine ⟨b',hacc,?_⟩
      rwa [openRequests,List.filterMap_cons_none hr]
    | some r =>
      rw [List.filterMap_cons_some hr,List.map_cons,List.nodup_cons] at hslots
      obtain ⟨hfirst,hslots⟩ := hslots
      by_cases hopen : r.sidechainNumber ∈ b.messages.m7s.map Prod.fst
      · obtain ⟨b',hacc,hadd⟩ := ih hb hindex hslots
        have hsome : (b.messages.m7BmmAcceptSlotVout r.sidechainNumber).isNone = false :=
          Option.isNone_eq_false_iff.mpr ((hindex r.sidechainNumber).mpr hopen)
        refine ⟨b',?_,?_⟩
        · simp only [hsome,Bool.false_eq_true,if_false]
          exact hacc
        · rwa [openRequests,List.filterMap_cons_some hr,List.filter_cons_of_neg (by simpa using hopen)]
      · obtain ⟨b₁,hstep,hadd₁,hindex₁,hm7s⟩ := bmmAccept_succeeds hold hb hindex r hopen
        obtain ⟨b',hacc,hadd⟩ := ih hadd₁ hindex₁ hslots
        have hnone : (b.messages.m7BmmAcceptSlotVout r.sidechainNumber).isNone = true := by
          simpa using mt (hindex r.sidechainNumber).mp hopen
        refine ⟨b',?_,?_⟩
        · simp only [hnone,if_true,hstep]
          exact hacc
        · -- the slot that is taken now is that of no later request
          have hrest : openRequests b₁ txs = openRequests b txs := by
            refine List.filter_congr (fun r' hr' => ?_)
            have hne : r'.sidechainNumber ≠ r.sidechainNumber :=
              fun he => hfirst (he ▸ List.mem_map_of_mem hr')
            simp [hm7s,hne]
          have hopenRequests : openRequests b (tx::txs) = r::openRequests b txs := by
            rw [openRequests,List.filterMap_cons_some hr,List.filter_cons_of_pos (by simpa using hopen)]
            rfl
          rw [hrest,List.append_assoc] at hadd
          rwa [hopenRequests]

theorem tryIntoScript_accept [Bitcoin] (r : M8BmmRequest) :
    ∃ script, r.accept.tryIntoScript = .ok script := by
  have hlen : r.accept.data.length < 2^32 := by
    simp [M8BmmRequest.accept,CoinbaseMessage.data,length_hashBytes,CoinbaseMessage.m7Tag]
  rw [CoinbaseMessage.tryIntoScript,pushBytes,if_pos hlen]
  exact ⟨_,rfl⟩

theorem acceptBmmRequests_read [Bitcoin] (hpush : ∀ data : List UInt8, data.length < 2^32 →
      instructions (newOpReturn data) = [some (.op opReturn),some (.pushBytes data)])
    {outs : List TxOut} {b₀ : CoinbaseBuilder} {txs : List Transaction}
    (hnew : CoinbaseBuilder.new outs = .ok b₀)
    (hslots : ((txs.filterMap parseM8Tx).map M8BmmRequest.sidechainNumber).Nodup) :
    ∃ b exts c, acceptBmmRequests b₀ txs = .ok b ∧ b.buildExtension = .ok exts ∧
      CoinbaseMessages.new (outs++exts) = .ok c ∧
      c.m7s = b₀.messages.m7s++(openRequests b₀ txs).map
        (fun r => (r.sidechainNumber,r.sidechainBlockHash)) := by
  obtain ⟨hold,htxouts⟩ := CoinbaseBuilder.old_new hnew
  obtain ⟨b,haccept,hadd⟩ := acceptBmmRequests_succeeds hold (CoinbaseBuilder.added_nil b₀)
    (CoinbaseMessages.m7sIndexed_new (CoinbaseBuilder.messages_of_new hnew)) hslots
  rw [List.nil_append] at hadd
  obtain ⟨exts,hexts⟩ : ∃ exts, b.buildExtension = .ok exts := by
    rw [CoinbaseBuilder.buildExtension,hadd.dropWhile_eq hold]
    refine Fallible.mapM_succeeds (fun e he => ?_)
    obtain ⟨r,-,hr⟩ := List.mem_map.mp (List.fst_mem_of_mem_zipIdx he)
    obtain ⟨script,hscript⟩ := tryIntoScript_accept r
    rw [← hr,hscript]
    exact ⟨_,rfl⟩
  have hbuild : b.build = .ok (b.coinbaseTxouts++exts) := by
    rw [CoinbaseBuilder.build,hexts]
    rfl
  obtain ⟨exts',heq,hread⟩ := hadd.build_ok hpush hold hbuild
  rw [hadd.txouts] at heq
  obtain rfl := List.append_cancel_left heq
  refine ⟨b,exts,b.messages,haccept,hexts,hadd.reads hnew (hread.imp (fun _ _ h => h.1)),?_⟩
  have haccepted : ((openRequests b₀ txs).map M8BmmRequest.accept).filterMap
      CoinbaseMessage.m7Commitment =
        (openRequests b₀ txs).map (fun r => (r.sidechainNumber,r.sidechainBlockHash)) := by
    rw [List.filterMap_map,← List.filterMap_eq_map]
    rfl
  rw [CoinbaseMessages.m7s,hadd.messages,List.map_append,List.filterMap_append,List.zipIdx_map_fst,
    haccepted]
  rfl

end Accept

section Template

variable [Bitcoin] {bmmBidFee : Txid → Option ℕ} {seen visited visited' : List SeenBid}
  {unpayable : List Txid}

theorem parseM8Tx_of_payout {op : OpDrivechain} {tx : Transaction} {v : ℕ}
    {res : M6id × SidechainNumber} (h : op.computeM6id tx v = .ok res) : parseM8Tx tx = none := by
  unfold OpDrivechain.computeM6id at h
  split at h
  · cases h
  · rename_i first payouts hout
    obtain ⟨s,hs,-⟩ := Fallible.bind_ok.mp h
    have hparse : op.parse first.scriptPubkey = some s := (Fallible.require_ok _ _ _).mp hs
    have htreasury : ∃ rest, first.scriptPubkey = op.opcode::0x01::rest := by
      obtain ⟨input,htag,-⟩ := Option.bind_eq_some_iff.mp hparse
      exact ⟨_,Parse.tag_some htag⟩
    cases hm8 : parseM8Tx tx with
    | none => rfl
    | some r =>
      rw [parseM8Tx,hout,List.head?_cons,Option.bind_eq_bind,Option.bind_some] at hm8
      obtain ⟨input,htag,-⟩ := Option.bind_eq_some_iff.mp hm8
      obtain ⟨rest,hrest⟩ := htreasury
      have hhead : first.scriptPubkey = M8BmmRequest.head++input := Parse.tag_some htag
      rw [hrest] at hhead
      have hlen : (0x01 : UInt8) = 68 := (List.cons.inj (List.cons.inj hhead).2).1
      cases hlen

def SeenFrom (txOf : Txid → Transaction) (parent : BlockHash) (seen : List SeenBid) : Prop :=
  ∀ e ∈ seen, parseM8Tx (txOf e.2.2) = some ⟨e.1,e.2.1,parent⟩

omit [Bitcoin] in
theorem SeenFrom.onePerTx {txOf : Txid → Transaction} {parent : BlockHash}
    (h : SeenFrom txOf parent seen) : OnePerTx seen := by
  intro e he e' he' htxid
  have heq := (h e he).symm.trans (htxid ▸ h e' he')
  obtain ⟨hslot,hcommitment,-⟩ := M8BmmRequest.mk.inj (Option.some.inj heq)
  exact Prod.ext hslot (Prod.ext hcommitment htxid)

def bidsIn (seen : List SeenBid) (s : SidechainNumber) (txs : List Transaction) : List Transaction :=
  txs.filter (fun tx => seen.any (fun e => e.1 = s && e.2.2 = tx.computeTxid))

theorem mem_bidsIn {s : SidechainNumber} {txs : List Transaction} {tx : Transaction} :
    tx ∈ bidsIn seen s txs ↔ tx ∈ txs ∧ ∃ e ∈ seen, e.1 = s ∧ e.2.2 = tx.computeTxid := by
  simp [bidsIn]

theorem template_bids (hone : OnePerTx seen) (hperm : visited.Perm seen) (hperm' : visited'.Perm seen)
    (hpay : ∀ e ∈ seen, e.2.2 ∉ unpayable) {tx tx' : Transaction} {e e' : SeenBid}
    (he : e ∈ seen) (he' : e' ∈ seen) (htx : e.2.2 = tx.computeTxid) (htx' : e'.2.2 = tx'.computeTxid)
    (hkept : tx.computeTxid ∉ excludeMempoolTxs unpayable bmmBidFee visited visited')
    (hkept' : tx'.computeTxid ∉ excludeMempoolTxs unpayable bmmBidFee visited visited')
    (hslot : e.1 = e'.1) : tx.computeTxid = tx'.computeTxid := by
  have hspec := excludeMempoolTxs_spec bmmBidFee hone hperm hperm' hpay e'.1
  split at hspec
  · obtain ⟨best,-,fee,-,-,hbest,-⟩ := hspec
    have hb := (hbest e he hslot).mp (by rwa [htx])
    have hb' := (hbest e' he' rfl).mp (by rwa [htx'])
    rw [← htx,← htx',hb,hb']
  · exact absurd (hspec e' he' rfl) (by rwa [htx'])

theorem bidsIn_length_le (hone : OnePerTx seen) (hperm : visited.Perm seen)
    (hperm' : visited'.Perm seen) (hpay : ∀ e ∈ seen, e.2.2 ∉ unpayable) {txs : List Transaction}
    (hnodup : (txs.map Transaction.computeTxid).Nodup)
    (hkept : ∀ tx ∈ txs, tx.computeTxid ∉ excludeMempoolTxs unpayable bmmBidFee visited visited')
    (s : SidechainNumber) : (bidsIn seen s txs).length ≤ 1 := by
  have hsub : ((bidsIn seen s txs).map Transaction.computeTxid).Nodup :=
    hnodup.sublist (List.filter_sublist.map _)
  have hsame : ∀ tx ∈ bidsIn seen s txs, ∀ tx' ∈ bidsIn seen s txs,
      tx.computeTxid = tx'.computeTxid := by
    intro tx htx tx' htx'
    obtain ⟨hmem,e,he,hes,hetx⟩ := mem_bidsIn.mp htx
    obtain ⟨hmem',e',he',hes',hetx'⟩ := mem_bidsIn.mp htx'
    exact template_bids hone hperm hperm' hpay he he' hetx hetx' (hkept tx hmem) (hkept tx' hmem')
      (hes.trans hes'.symm)
  match hbids : bidsIn seen s txs with
  | [] => exact Nat.zero_le 1
  | [tx] => exact Nat.le_refl 1
  | tx::tx'::rest =>
    rw [hbids] at hsub hsame
    refine absurd (hsame tx (by simp) tx' (by simp)) (fun heq => ?_)
    simp [heq] at hsub

theorem requests_nodup (hone : OnePerTx seen) (hperm : visited.Perm seen)
    (hperm' : visited'.Perm seen) (hpay : ∀ e ∈ seen, e.2.2 ∉ unpayable) {txs : List Transaction}
    (hnodup : (txs.map Transaction.computeTxid).Nodup)
    (hkept : ∀ tx ∈ txs, tx.computeTxid ∉ excludeMempoolTxs unpayable bmmBidFee visited visited')
    (hknown : ∀ tx ∈ txs, ∀ r, parseM8Tx tx = some r →
      (r.sidechainNumber,r.sidechainBlockHash,tx.computeTxid) ∈ seen) :
    ((txs.filterMap parseM8Tx).map M8BmmRequest.sidechainNumber).Nodup := by
  rw [List.Nodup,List.pairwise_map,List.pairwise_filterMap]
  refine (List.pairwise_map.mp hnodup).imp_of_mem (fun {tx tx'} hmem hmem' hne => ?_)
  intro r hr r' hr' hslot
  exact hne (template_bids hone hperm hperm' hpay (hknown tx hmem r hr) (hknown tx' hmem' r' hr')
    rfl rfl (hkept tx hmem) (hkept tx' hmem') hslot)

theorem seen_of_mempool {s : EnforcedNode} {parent : BlockHash} {txs : List Transaction}
    (hs : s.RequestsCurrent) (htip : s.dbs.currentChainTip = some parent)
    (htxs : ∀ tx ∈ txs, ∃ e ∈ s.mempool, e.tx = tx) :
    ∀ tx ∈ txs, ∀ r, parseM8Tx tx = some r → (r.sidechainNumber,r.sidechainBlockHash,tx.computeTxid) ∈
      s.dbs.blockHashes.getSeenBmmRequestsForParentBlock parent := by
  intro tx htx r hr
  obtain ⟨e,he,rfl⟩ := htxs tx htx
  obtain rfl := Option.some.inj (htip.symm.trans (hs.tip e he r hr))
  exact hs.seen e he r hr

/-- In whatever order the seen requests are visited, the best bid of each slot is left in the
template and no other one. So a template has at most one bid for each slot, and the coinbase is
extended by what accepts every request of the template. The requests of a mempool are seen ones. -/
theorem bmm_auction (hpush : ∀ data : List UInt8, data.length < 2^32 →
      instructions (newOpReturn data) = [some (.op opReturn),some (.pushBytes data)])
    (op : OpDrivechain) (bmmBidFee : Txid → Option ℕ) (unpayable : List Txid)
    {txOf : Txid → Transaction} {parent : BlockHash} (hseen : SeenFrom txOf parent seen)
    (hperm : visited.Perm seen) (hperm' : visited'.Perm seen)
    (hpay : ∀ txid ∈ unpayable, ∃ v res, op.computeM6id (txOf txid) v = .ok res) :
    (∀ s, if ∃ e ∈ seen, e.1 = s ∧ (bmmBidFee e.2.2).isSome = true then
        ∃ e ∈ seen, ∃ fee, e.1 = s ∧ bmmBidFee e.2.2 = some fee ∧
          (∀ e' ∈ seen, e'.1 = s →
            (e'.2.2 ∉ excludeMempoolTxs unpayable bmmBidFee visited visited' ↔ e' = e)) ∧
          ∀ e' ∈ seen, e'.1 = s → ∀ fee', bmmBidFee e'.2.2 = some fee' → fee' ≤ fee
      else ∀ e ∈ seen, e.1 = s → e.2.2 ∈ excludeMempoolTxs unpayable bmmBidFee visited visited') ∧
    ∀ txs : List Transaction, (txs.map Transaction.computeTxid).Nodup →
      (∀ tx ∈ txs, tx.computeTxid ∉ excludeMempoolTxs unpayable bmmBidFee visited visited') →
      (∀ s, (bidsIn seen s txs).length ≤ 1) ∧
      ((∀ tx ∈ txs, ∀ r, parseM8Tx tx = some r →
          (r.sidechainNumber,r.sidechainBlockHash,tx.computeTxid) ∈ seen) →
        ∀ outs b₀, CoinbaseBuilder.new outs = .ok b₀ →
          ∃ b exts c, acceptBmmRequests b₀ txs = .ok b ∧ b.buildExtension = .ok exts ∧
            CoinbaseMessages.new (outs++exts) = .ok c ∧
            c.m7s = b₀.messages.m7s++(openRequests b₀ txs).map
              (fun r => (r.sidechainNumber,r.sidechainBlockHash))) ∧
      ∀ node : EnforcedNode, node.RequestsCurrent → node.dbs.currentChainTip = some parent →
        node.dbs.blockHashes.getSeenBmmRequestsForParentBlock parent = seen →
        (∀ tx ∈ txs, ∃ e ∈ node.mempool, e.tx = tx) → ∀ tx ∈ txs, ∀ r, parseM8Tx tx = some r →
          (r.sidechainNumber,r.sidechainBlockHash,tx.computeTxid) ∈ seen := by
  have hone := hseen.onePerTx
  have hpayable : ∀ e ∈ seen, e.2.2 ∉ unpayable := by
    intro e he hmem
    obtain ⟨v,res,hres⟩ := hpay e.2.2 hmem
    have hm8 := hseen e he
    rw [parseM8Tx_of_payout hres] at hm8
    cases hm8
  refine ⟨excludeMempoolTxs_spec bmmBidFee hone hperm hperm' hpayable,?_⟩
  intro txs hnodup hkept
  refine ⟨bidsIn_length_le hone hperm hperm' hpayable hnodup hkept,?_,?_⟩
  · intro hknown outs b₀ hnew
    exact acceptBmmRequests_read hpush hnew
      (requests_nodup hone hperm hperm' hpayable hnodup hkept hknown)
  · rintro node hcurrent htip rfl hmempool
    exact seen_of_mempool hcurrent htip hmempool

end Template

section Sample

open Sample

namespace AuctionSample

def low : Transaction := BmmSample.requestTx 1 8 7

def high : Transaction := BmmSample.requestTx 1 9 7

def gone : Transaction := BmmSample.requestTx 3 9 7

def txOf (txid : Txid) : Transaction :=
  if txid = low.computeTxid then low else if txid = high.computeTxid then high else gone

def seen : List SeenBid :=
  [(1,8,low.computeTxid),(1,9,high.computeTxid),(3,9,gone.computeTxid)]

def fee (txid : Txid) : Option ℕ :=
  if txid = low.computeTxid then some 5 else if txid = high.computeTxid then some 6 else none

end AuctionSample

open AuctionSample

theorem bmm_auction_sample :
    excludeMempoolTxs [] fee seen.reverse seen = [low.computeTxid,gone.computeTxid] ∧
      ∃ b₀ b exts c, CoinbaseBuilder.new [⟨50,[0x51]⟩] = .ok b₀ ∧
        acceptBmmRequests b₀ [high] = .ok b ∧ b.buildExtension = .ok exts ∧
        CoinbaseMessages.new (⟨50,[0x51]⟩::exts) = .ok c ∧ c.m7s = [(1,9)] := by
  refine ⟨by decide +kernel,?_⟩
  have hseen : SeenFrom txOf 7 seen := by
    intro e he
    simp only [seen,List.mem_cons,List.not_mem_nil,or_false] at he
    rcases he with rfl | rfl | rfl
    · decide +kernel
    · decide +kernel
    · decide +kernel
  obtain ⟨b₀,hnew⟩ : ∃ b₀, CoinbaseBuilder.new [⟨50,[0x51]⟩] = .ok b₀ :=
    Fallible.exists_of_isOk (by decide +kernel)
  have hm7s : (CoinbaseBuilder.new [⟨50,[0x51]⟩]).toOption.map (fun b => (b.messages.m7s,
      openRequests b [high])) = some ([],[⟨1,9,7⟩]) := by decide +kernel
  rw [hnew] at hm7s
  obtain ⟨hnone,hopen⟩ := Prod.mk.inj (Option.some.inj hm7s)
  obtain ⟨-,htemplate⟩ := bmm_auction (fun _ hdata => Script.instructions_newOpReturn_all hdata)
    .nop5 fee [] hseen seen.reverse_perm (List.Perm.refl seen) (by simp)
  obtain ⟨-,haccept,-⟩ := htemplate [high] (by simp) (by decide +kernel)
  obtain ⟨b,exts,c,hb,hexts,hc,hm⟩ := haccept (by decide +kernel) _ b₀ hnew
  refine ⟨b₀,b,exts,c,hnew,hb,hexts,hc,?_⟩
  rw [hm,hnone,hopen]
  rfl

end Sample

end BlockProducer
end Bip300301Enforcer
