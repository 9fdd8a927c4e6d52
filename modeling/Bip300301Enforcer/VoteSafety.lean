import Bip300301Enforcer.Rejections
import Bip300301Enforcer.Runs

/-! Votes and positions stay within their bounds, so that no counter overflows and no
vote for a position is taken for an alarm or an abstention. -/
namespace Bip300301Enforcer
open Lib Chain BlockHandler PendingM6ids
open Fallible (FailsOnly)

theorem Thresholds.forNetwork_maxAge (fork : Fork) (network : Network) :
    (forNetwork fork network).proposalMaxAge+1 < 0xFFFF ∧
      (forNetwork fork network).withdrawalBundleMaxAge.toNat+2 <
        M4AckBundles.alarmTwoBytes.toNat := by
  cases fork <;> cases network <;> decide

section Votes

variable [Bitcoin] {h : BlockHandler} {V : Chain → Block → Prop} {stale : Prop} {c : Chain}
  {dbs : Dbs} {parent : BlockHash} {prevDiff : Option Diff.Block}

theorem Grown.bundlesRead {D : BlockHash → Option Diff.Block} {t₀ t : ConsensusDbs}
    {msgs : List CoinbaseMessage} {ds : List Diff.CoinbaseMsg} (hg : Grown h V stale D c t₀)
    (hr : Ran h c.length parent prevDiff t₀ msgs t ds)
    (hm3 : (msgs.filter CoinbaseMessage.isM3).length ≤ 1) :
    EachPending t.activeSidechains
      (BundlesRead (c.length-1-h.thresholds.withdrawalBundleMaxAge.toNat) c.length msgs) := by
  refine ran_pending hr (by omega) hm3 ?_
  intro s p hp
  have hb := hg.pendingBounds s p hp
  refine ⟨⟨hb.increasing,fun k hk => ?_,hb.votes⟩,fun k hk => by simpa using hb.last k hk⟩
  have := hb.age k hk
  omega

theorem Synced.pending_len_read {coinbase : Transaction} {scan : CoinbaseScan} {acc : CoinbaseState}
    {done rest : List (CoinbaseMessage × ℕ)} (hs : Synced h V stale dbs c)
    (hscan : scanCoinbase coinbase = .ok scan) (hsplit : scan.messages.messages = done++rest)
    (hdone : done.foldlM (h.connectMessage c.length parent prevDiff scan.m1SidechainProposals)
      ⟨dbs.toConsensusDbs,.empty,[],[]⟩ = .ok acc) :
    EachPending acc.dbs.activeSidechains
      (fun p => p.len ≤ h.thresholds.withdrawalBundleMaxAge.toNat+2) := by
  obtain ⟨hmsgs,hone⟩ := scanCoinbase_ok hscan
  have hm3 : ((done.map Prod.fst).filter CoinbaseMessage.isM3).length ≤ 1 := by
    have hall := hone.m3
    rw [← hmsgs,hsplit,List.map_append,List.filter_append,List.length_append] at hall
    omega
  have hread := hs.grown.bundlesRead (ran_foldlM hdone).1 hm3
  intro s p hp
  have hb := hread s p hp
  have hlen : p.len ≤ c.length+1-(c.length-1-h.thresholds.withdrawalBundleMaxAge.toNat) := by
    rw [← len_eq p]
    refine length_le_of_increasing hb.increasing hb.first (fun k hk => ?_)
    have := hb.last k hk
    omega
  omega

/-- In every guarded run under the thresholds of a network: a proposal has at most as
many votes as its age, a bundle at most two more, a slot has at most one pending bundle
more than the maximum age, and at most two more while a coinbase is read, so that no
position is an alarm or an abstention. Connecting a block panics at no counter and no
position, and disconnecting the tip does not fail. -/
theorem votes_within_bounds (params : NetworkParams) (fork : Fork) (network : Network)
    (hp : params.thresholds = .forNetwork fork network) (hr : Reach (.new params) V False dbs c) :
    (∀ id sc, dbs.proposalIdToSidechain.get? id = some sc → sc.status.proposalHeight < c.length ∧
      sc.status.voteCount.toNat ≤ c.length-1-sc.status.proposalHeight) ∧
    (∀ s p, dbs.activeSidechains.pendingM6ids.get? s = some p →
      p.len ≤ params.thresholds.withdrawalBundleMaxAge.toNat+1 ∧
      ∀ m6id info, p.get? m6id = some info → info.proposalHeight < c.length ∧
        info.voteCount.toNat ≤ c.length-1-info.proposalHeight+2) ∧
    (∀ (b : Block) coinbase scan done rest acc, b.txdata.head? = some coinbase →
      scanCoinbase coinbase = .ok scan → scan.messages.messages = done++rest →
      done.foldlM ((BlockHandler.new params).connectMessage c.length b.header.prevBlockhash
        (dbs.blockHashes.diff.get? b.header.prevBlockhash) scan.m1SidechainProposals)
        ⟨dbs.toConsensusDbs,.empty,[],[]⟩ = .ok acc →
      ∀ s p, acc.dbs.activeSidechains.pendingM6ids.get? s = some p →
        p.len ≤ params.thresholds.withdrawalBundleMaxAge.toNat+2 ∧
        p.len < M4AckBundles.alarmTwoBytes.toNat ∧ p.len < M4AckBundles.abstainTwoBytes.toNat) ∧
    (∀ b e, dbs.blockHashes.header.get? b.blockHash = some b.header →
      (BlockHandler.new params).connectBlock dbs b = .error e → e.fatality ≠ .jfyi →
        ∃ txid hash, e = .transaction txid hash (.panic .secondConsolidatedInput)) ∧
    (∀ hash, (dbs.currentChainTip = none → dbs.blockHashes.diff.get? hash = none) →
      FailsOnly (fun e => ∃ tip, dbs.currentChainTip = some tip ∧ tip ≠ hash ∧ e = .tipHash hash tip)
        (disconnectBlock dbs hash)) := by
  have hs := hr.synced
  obtain ⟨hage,hmax⟩ := Thresholds.forNetwork_maxAge fork network
  rw [← hp] at hage hmax
  refine ⟨?_,?_,?_,?_,hs.disconnectBlock_failsOnly⟩
  · intro id sc hsc
    have hb := (hs.grown.proposalBounds id sc hsc).votes
    exact ⟨by omega,by omega⟩
  · intro s p hpend
    have hb := hs.grown.pendingBounds s p hpend
    refine ⟨hb.len_le,fun m6id info hi => ?_⟩
    have hv := hb.votes m6id info hi
    have hlt := hb.last _ (mem_heights.mpr ⟨m6id,info,hi,rfl⟩)
    exact ⟨hlt,by omega⟩
  · intro b coinbase scan done rest acc _ hscan hsplit hdone s p hpend
    have hlen : p.len ≤ params.thresholds.withdrawalBundleMaxAge.toNat+2 :=
      hs.pending_len_read hscan hsplit hdone s p hpend
    have habs : M4AckBundles.alarmTwoBytes.toNat < M4AckBundles.abstainTwoBytes.toNat := by decide
    exact ⟨hlen,by omega,by omega⟩
  · intro b e hh he hfatal
    rcases hs.connectBlock_failsOnly (A := False) hage False.elim hh e he with hrej | ⟨-,htx⟩
    · exact absurd hrej hfatal
    · exact htx

end Votes

section Sample

open Sample

namespace VoteSample

def handler : BlockHandler := .new (.new .bitcoin .regtest)

def description : List UInt8 := [1,2,3]

def contents : List (List Script × List Transaction) :=
  [([],[]),([m1Script 0 description],[])]++
  List.replicate 6 ([m2Script 0 (sha256d description)],[])++
  [([m3Script 0 7,m4Script [0]],[])]

def run : Dbs × Chain :=
  Call.runAll handler (fun _ _ => True) (Call.connectAll (blocksOn allZeros 0 contents))

theorem reach_run : Reach handler (fun _ _ => True) False run.1 run.2 :=
  Call.reach_runAll _ (by decide)

end VoteSample

open VoteSample

theorem votes_within_bounds_sample :
    ∃ p info, run.1.activeSidechains.pendingM6ids.get? 0 = some p ∧ p.get? 7 = some info ∧
      info.voteCount = 2 ∧ info.voteCount.toNat ≤ run.2.length-1-info.proposalHeight+2 := by
  obtain ⟨-,hpend,-⟩ := votes_within_bounds handler.params .bitcoin .regtest rfl reach_run
  obtain ⟨p,hp,info,hi,hv⟩ : ∃ p, run.1.activeSidechains.pendingM6ids.get? 0 = some p ∧
      ∃ info, p.get? 7 = some info ∧ info.voteCount = 2 := by
    refine ⟨OrderMap.empty.insert 7 ⟨2,8⟩,by decide +kernel,⟨2,8⟩,by decide +kernel,rfl⟩
  exact ⟨p,info,hp,hi,hv,((hpend 0 p hp).2 7 info hi).2⟩

/-- A bundle that is proposed and upvoted in one coinbase has two votes at age zero. -/
theorem bundle_votes_exceed_age :
    ∃ (dbs : Dbs) (c : Chain) (p : PendingM6ids) (info : PendingM6idInfo),
      Reach handler (fun _ _ => True) False dbs c ∧
      dbs.activeSidechains.pendingM6ids.get? 0 = some p ∧ p.get? 7 = some info ∧
      c.length-1-info.proposalHeight+1 < info.voteCount.toNat := by
  refine ⟨run.1,run.2,OrderMap.empty.insert 7 ⟨2,8⟩,⟨2,8⟩,reach_run,by decide +kernel,
    by decide +kernel,?_⟩
  have hlen : run.2.length = 9 := by decide +kernel
  rw [hlen]
  decide

end Sample

end Bip300301Enforcer
