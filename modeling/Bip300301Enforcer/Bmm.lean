import Bip300301Enforcer.CoinbaseScan
import Bip300301Enforcer.Runs

/-! The blind merged mining of an accepted block: at most one commitment and one
request for each slot, and every request is for the block that it is in. -/
namespace Bip300301Enforcer
open Lib Chain

namespace CoinbaseMessage

/-- The slot and the commitment of an `M7`. -/
def m7Commitment : CoinbaseMessage → Option (SidechainNumber × BmmCommitment)
  | .m7BmmAccept s commitment => some (s,commitment)
  | _ => none

end CoinbaseMessage

open CoinbaseMessage

def Block.bmmRequests (b : Block) : List M8BmmRequest := b.txdata.tail.filterMap parseM8Tx

def M8BmmRequest.accept (r : M8BmmRequest) : CoinbaseMessage :=
  .m7BmmAccept r.sidechainNumber r.sidechainBlockHash

namespace BlockHandler

variable [Bitcoin] {h : BlockHandler} {height : ℕ} {parent hash : BlockHash}
  {prevDiff : Option Diff.Block}

/-- A message adds its commitment to the accepted ones. -/
theorem handleCoinbaseMessage_accepted {t : ConsensusDbs} {accepted accepted' : BmmCommitments}
    {msg : CoinbaseMessage} {event : Option CoinbaseMessageEvent} {d : Option Diff.CoinbaseMsg}
    (hm : h.handleCoinbaseMessage t height parent prevDiff accepted msg =
      .ok (event,d,accepted')) :
    accepted'.entries = accepted.entries++msg.m7Commitment.toList := by
  cases msg with
  | m1ProposeSidechain s description =>
    simp only [handleCoinbaseMessage] at hm
    split at hm
    · obtain ⟨-,-,rfl⟩ := Prod.mk.inj (Except.ok.inj hm) |>.imp id Prod.mk.inj
      simp [m7Commitment]
    · obtain ⟨-,-,rfl⟩ := Prod.mk.inj (Except.ok.inj hm) |>.imp id Prod.mk.inj
      simp [m7Commitment]
  | m2AckSidechain s dh =>
    obtain ⟨_,-,hm⟩ := Fallible.bind_ok.mp hm
    simp only [Fallible.pure_ok,Prod.mk.injEq] at hm
    obtain ⟨-,-,rfl⟩ := hm
    simp [m7Commitment]
  | m3ProposeBundle s m6id =>
    obtain ⟨_,-,hm⟩ := Fallible.bind_ok.mp hm
    simp only [Fallible.pure_ok,Prod.mk.injEq] at hm
    obtain ⟨-,-,rfl⟩ := hm
    simp [m7Commitment]
  | m4AckBundles m4 =>
    obtain ⟨_,-,hm⟩ := Fallible.bind_ok.mp hm
    simp only [Fallible.pure_ok,Prod.mk.injEq] at hm
    obtain ⟨-,-,rfl⟩ := hm
    simp [m7Commitment]
  | m7BmmAccept s commitment =>
    simp only [handleCoinbaseMessage] at hm
    split at hm
    · cases hm
    · rename_i hnew
      obtain ⟨-,-,rfl⟩ := Prod.mk.inj (Except.ok.inj hm) |>.imp id Prod.mk.inj
      rw [OrderMap.insert_of_not_mem]
      · simp [m7Commitment]
      · rwa [← OrderMap.contains_iff]

theorem connectMessage_accepted {proposals : FinMap SidechainProposalId ℕ}
    {acc acc' : CoinbaseState} {msg : CoinbaseMessage × ℕ}
    (hc : h.connectMessage height parent prevDiff proposals acc msg = .ok acc') :
    acc'.acceptedBmmRequests.entries =
      acc.acceptedBmmRequests.entries++msg.1.m7Commitment.toList := by
  obtain ⟨⟨event,d,accepted⟩,hm,hc⟩ := Fallible.bind_ok.mp hc
  obtain ⟨events,-,hc⟩ := Fallible.bind_ok.mp hc
  rw [← handleCoinbaseMessage_accepted hm]
  cases d with
  | none =>
    obtain rfl := Except.ok.inj hc
    rfl
  | some d =>
    obtain ⟨dbs',-,hc⟩ := Fallible.bind_ok.mp hc
    rw [Fallible.pure_ok] at hc
    subst hc
    rfl

theorem connectCoinbase_accepted {t t₂ : ConsensusDbs} {coinbase : Transaction}
    {accepted : BmmCommitments} {events : List BlockEvent} {d : Diff.Coinbase}
    (hc : h.connectCoinbase t height parent prevDiff coinbase = .ok (t₂,accepted,events,d)) :
    accepted.entries = coinbase.messages.filterMap m7Commitment := by
  obtain ⟨scan,hscan,hc⟩ := Fallible.bind_ok.mp hc
  obtain ⟨acc,hacc,hc⟩ := Fallible.bind_ok.mp hc
  rw [connectMissingM4_eq,Fallible.ok_bind] at hc
  obtain ⟨failed,-,hc⟩ := Fallible.bind_ok.mp hc
  obtain ⟨active,-,hc⟩ := Fallible.bind_ok.mp hc
  simp only [Fallible.pure_ok,Prod.mk.injEq] at hc
  obtain ⟨-,rfl,-,-⟩ := hc
  have hspec := Fallible.foldlM_prefix
    (fun done acc => acc.acceptedBmmRequests.entries =
      (done.map Prod.fst).filterMap m7Commitment) hacc rfl ?_
  · rw [hspec,(scanCoinbase_ok hscan).1]
  · intro done msg rest acc acc' _ hI hstep
    rw [connectMessage_accepted hstep,hI,List.map_append,List.filterMap_append]
    cases hm : msg.1.m7Commitment <;> simp [hm]

omit [Bitcoin] in
theorem handleM8_ok {tx : Transaction} {accepted : BmmCommitments} {r : Bool}
    (hm : handleM8 tx (some accepted) parent = .ok r) {request : M8BmmRequest}
    (hp : parseM8Tx tx = some request) :
    accepted.get? request.sidechainNumber = some request.sidechainBlockHash ∧
      request.prevMainchainBlockHash = parent := by
  simp only [handleM8,hp] at hm
  split at hm
  · cases hm
  · rename_i hacc
    split at hm
    · cases hm
    · rename_i hprev
      exact ⟨by simpa using hacc,not_not.mp hprev⟩

/-- What the loop over the transactions knows about the requests it has seen. -/
structure RequestsRead (accepted : BmmCommitments) (parent : BlockHash)
    (requests : List M8BmmRequest) (slots : List SidechainNumber) : Prop where
  slots : slots = (requests.map M8BmmRequest.sidechainNumber).reverse
  nodup : (requests.map M8BmmRequest.sidechainNumber).Nodup
  accepted : ∀ r ∈ requests, accepted.get? r.sidechainNumber = some r.sidechainBlockHash
  parent : ∀ r ∈ requests, r.prevMainchainBlockHash = parent

theorem RequestsRead.connectTx {accepted : BmmCommitments} {requests : List M8BmmRequest}
    {acc acc' : TxState} {tx : Transaction}
    (hI : RequestsRead accepted parent requests acc.bmmRequestSlots)
    (hc : h.connectTx accepted parent hash acc tx = .ok acc') :
    RequestsRead accepted parent (requests++(parseM8Tx tx).toList) acc'.bmmRequestSlots := by
  obtain ⟨⟨handled,u⟩,hh,hc⟩ := Fallible.bind_ok.mp hc
  obtain ⟨slots,hslots,hc⟩ := Fallible.bind_ok.mp hc
  have hslots' : acc'.bmmRequestSlots = slots := by
    cases handled with
    | none =>
      obtain rfl := Except.ok.inj hc
      rfl
    | some e =>
      obtain ⟨dbs',-,hc⟩ := Fallible.bind_ok.mp hc
      rw [Fallible.pure_ok] at hc
      subst hc
      rfl
  rw [hslots']
  rw [Fallible.mapError_ok] at hh
  obtain ⟨⟨res,u'⟩,-,hh⟩ := Fallible.bind_ok.mp hh
  obtain ⟨r,hm,-⟩ := Fallible.bind_ok.mp hh
  unfold claimBmmSlot at hslots
  split at hslots
  · rename_i hnone
    obtain rfl := Except.ok.inj hslots
    simpa [hnone] using hI
  · rename_i request hsome
    split at hslots
    · cases hslots
    · rename_i hnew
      obtain rfl := Except.ok.inj hslots
      obtain ⟨hacc,hparent⟩ := handleM8_ok hm hsome
      rw [hI.slots,List.mem_reverse] at hnew
      rw [hsome,Option.toList_some]
      refine ⟨?_,?_,?_,?_⟩
      · simp [hI.slots]
      · rw [List.map_append,List.nodup_append]
        refine ⟨hI.nodup,by simp,?_⟩
        intro a ha b hb he
        rw [List.map_singleton,List.mem_singleton] at hb
        exact hnew (hb ▸ he ▸ ha)
      · intro r hr
        rcases List.mem_append.mp hr with hr | hr
        · exact hI.accepted r hr
        · rw [List.mem_singleton.mp hr]
          exact hacc
      · intro r hr
        rcases List.mem_append.mp hr with hr | hr
        · exact hI.parent r hr
        · rw [List.mem_singleton.mp hr]
          exact hparent

theorem foldlM_requestsRead {accepted : BmmCommitments} {txs : List Transaction}
    {acc acc' : TxState} (hslots : acc.bmmRequestSlots = [])
    (hc : txs.foldlM (h.connectTx accepted parent hash) acc = .ok acc') :
    RequestsRead accepted parent (txs.filterMap parseM8Tx) acc'.bmmRequestSlots := by
  refine Fallible.foldlM_prefix
    (fun done acc => RequestsRead accepted parent (done.filterMap parseM8Tx) acc.bmmRequestSlots) hc
    ?_ ?_
  · rw [hslots]
    exact ⟨rfl,by simp,by simp,by simp⟩
  · intro done tx rest acc acc' _ hI hstep
    have hread := hI.connectTx hstep
    rw [List.filterMap_append]
    cases hp : parseM8Tx tx <;> simpa [hp] using hread

end BlockHandler

/-- In every accepted block from the activation height on, the commitments are for
different slots and are stored in the order of the coinbase, the requests are for
different slots, and every request names the commitment of its slot and the parent of
the block. -/
theorem connectBlock_bmm [Bitcoin] (h : BlockHandler) (dbs dbs' : Dbs) (b : Block) (event : Event) (n : ℕ)
    (hn : dbs.blockHashes.height.get? b.blockHash = some n)
    (hact : h.params.bip300ActivationHeight ≤ n)
    (hc : h.connectBlock dbs b = .ok (event,dbs')) :
    ((b.messages.filterMap m7Commitment).map Prod.fst).Nodup ∧
      (b.bmmRequests.map M8BmmRequest.sidechainNumber).Nodup ∧
      (∀ r ∈ b.bmmRequests, (.m7BmmAccept r.sidechainNumber r.sidechainBlockHash) ∈ b.messages ∧
        r.prevMainchainBlockHash = b.header.prevBlockhash) ∧
      ∃ commitments, dbs'.blockHashes.bmmCommitments.get? b.blockHash = some commitments ∧
        commitments.entries = b.messages.filterMap m7Commitment := by
  obtain ⟨n',coinbase,txs,res,hp,-,hrec⟩ := BlockHandler.connectBlock_ok.mp hc
  obtain rfl := Option.some.inj (hn.symm.trans hp.height)
  rcases BlockHandler.processBlock_ok hp.processed with ⟨hlt,-⟩ |
    ⟨-,scan,t₁,t₂,accepted,events,d,acc,hcoinbase,-,htxs,hres⟩
  · exact absurd hlt (Nat.not_lt.mpr hact)
  have hmessages : b.messages = coinbase.messages := by
    rw [Block.messages,hp.txdata]
  have hrequests : b.bmmRequests = txs.filterMap parseM8Tx := by
    rw [Block.bmmRequests,hp.txdata]
    rfl
  have hentries := BlockHandler.connectCoinbase_accepted hcoinbase
  have hread := BlockHandler.foldlM_requestsRead rfl htxs
  obtain ⟨hd,w,-,-,-,tip,rfl,-⟩ := BlockHandler.recordBlock_ok hrec
  rw [hmessages,hrequests,← hentries]
  refine ⟨accepted.nodup,hread.nodup,?_,accepted,?_,rfl⟩
  · intro r hr
    refine ⟨?_,hread.parent r hr⟩
    have hmem := OrderMap.mem_entries.mpr (hread.accepted r hr)
    rw [hentries] at hmem
    obtain ⟨msg,hmsg,hcommit⟩ := List.mem_filterMap.mp hmem
    cases msg with
    | m7BmmAccept s commitment =>
      obtain ⟨rfl,rfl⟩ := Prod.mk.inj (Option.some.inj hcommit)
      exact hmsg
    | _ => cases hcommit
  · subst hres
    exact FinMap.get?_insert_self _ _ _

section Sample

open Sample

namespace BmmSample

def m7Script (s : SidechainNumber) (commitment : BmmCommitment) : Script :=
  Script.newOpReturn (CoinbaseMessage.m7Tag++s::hashBytes commitment)

def requestTx (s : SidechainNumber) (commitment : BmmCommitment) (parent : BlockHash) :
    Transaction :=
  ⟨2,0,[],[⟨0,M8BmmRequest.head++M8BmmRequest.m8Tag++
    s::(hashBytes commitment++hashBytes parent)⟩]⟩

def handler : BlockHandler := .new (.new .bitcoin .regtest)

def genesis : Block := blockOn allZeros 0 [] []

def merged : Block :=
  blockOn genesis.blockHash 1 [m7Script 3 8,m7Script 1 9] [requestTx 1 9 genesis.blockHash]

def run : Dbs × Chain :=
  Call.runAll handler FreshTxids
    [.header genesis.header 0,.header merged.header 1,.connect genesis]

end BmmSample

open BmmSample

theorem connectBlock_bmm_sample :
    ∃ event dbs', handler.connectBlock run.1 merged = .ok (event,dbs') ∧
      ∃ commitments, dbs'.blockHashes.bmmCommitments.get? merged.blockHash = some commitments ∧
        commitments.entries = [(3,8),(1,9)] ∧ merged.bmmRequests.length = 1 := by
  obtain ⟨r,hc⟩ : ∃ r, handler.connectBlock run.1 merged = .ok r :=
    Fallible.exists_of_isOk (by decide +kernel)
  obtain ⟨-,-,-,commitments,hget,hentries⟩ := connectBlock_bmm handler run.1 r.2 merged r.1 1
    (by decide +kernel) (by decide +kernel) hc
  refine ⟨r.1,r.2,hc,commitments,hget,hentries.trans ?_,by decide +kernel⟩
  decide +kernel

end Sample

end Bip300301Enforcer
