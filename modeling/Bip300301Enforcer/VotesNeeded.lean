import Bip300301Enforcer.BundleLifecycle
import Bip300301Enforcer.ApprovedBundles
import Bip300301Enforcer.Ballots

/-! How the votes of a bundle come from the `M4` messages of the blocks since its proposal. Each
block gives it one vote, takes one away or abstains, so that a withdrawal needs the upvotes of as
many blocks as the inclusion threshold says. -/
namespace Bip300301Enforcer
open Lib Chain BlockHandler Diff FloorWalk

namespace Diff

def AckBundleAction.vote (m6id : M6id) : AckBundleAction → Vote
  | .upvote target _ => if target = m6id then .up else .down
  | .alarm _ => .down

def CoinbaseMsg.vote (s : SidechainNumber) (m6id : M6id) : CoinbaseMsg → Option Vote
  | .ackBundles d => (d.actions.get? s).map (AckBundleAction.vote m6id)
  | _ => none

/-- The votes that some coinbase messages give a bundle. -/
def votes (s : SidechainNumber) (m6id : M6id) (msgs : List CoinbaseMsg) : List Vote :=
  msgs.filterMap (CoinbaseMsg.vote s m6id)

theorem CoinbaseMsg.countVotes_eq {d : CoinbaseMsg} {s : SidechainNumber} {m6id : M6id}
    (hd : d ≠ .proposeBundle ⟨s,m6id⟩) (v : ℕ) :
    d.countVotes s m6id v = walk v (d.vote s m6id).toList := by
  cases d with
  | ackSidechainProposal d => rfl
  | newSidechainProposal d => rfl
  | proposeBundle d =>
    have hne : d ≠ ⟨s,m6id⟩ := fun he => hd (congrArg _ he)
    simp [countVotes,vote,hne]
  | ackBundles d =>
    simp only [countVotes,vote]
    cases d.actions.get? s with
    | none => rfl
    | some action =>
      cases action with
      | alarm positive => rfl
      | upvote target others => by_cases ht : target = m6id <;> simp [ht,step,AckBundleAction.vote]

def CoinbaseMsg.isAckBundles : CoinbaseMsg → Bool
  | .ackBundles _ => true
  | _ => false

/-- The votes of a coinbase with one message about bundles are those that it records. -/
theorem votes_eq {s : SidechainNumber} {m6id : M6id} {ds : List CoinbaseMsg}
    (hone : (ds.filter CoinbaseMsg.isAckBundles).length ≤ 1) : votes s m6id ds =
      (((recordedVotes ds).bind (fun d => d.actions.get? s)).map
        (AckBundleAction.vote m6id)).toList := by
  induction ds with
  | nil => rfl
  | cons d ds ih =>
    cases d with
    | ackBundles d =>
      rw [List.filter_cons_of_pos rfl,List.length_cons] at hone
      have hnil : ds.filter CoinbaseMsg.isAckBundles = [] := List.length_eq_zero_iff.mp (by omega)
      have hrest : votes s m6id ds = [] := by
        refine List.filterMap_eq_nil_iff.mpr (fun d' hd' => ?_)
        cases d' with
        | ackBundles d' => exact absurd rfl (List.filter_eq_nil_iff.mp hnil _ hd')
        | _ => rfl
      have hfirst : recordedVotes (.ackBundles d::ds) = some d := rfl
      have hvotes : votes s m6id (.ackBundles d::ds) =
          (CoinbaseMsg.vote s m6id (.ackBundles d)).toList++votes s m6id ds := by
        rw [votes,List.filterMap_cons]
        split <;> simp_all [votes]
      rw [hvotes,hrest,hfirst,List.append_nil]
      rfl
    | _ => exact ih hone

end Diff

section Ran

variable [Bitcoin] {h : BlockHandler} {t t₀ : ConsensusDbs} {n : ℕ} {parent : BlockHash}
  {prevDiff : Option Diff.Block} {msgs : List CoinbaseMessage} {ds : List CoinbaseMsg}

/-- Where the votes of a bundle come from within a block: the bundle was pending before the
block, or it is new and the messages after its proposal have voted. -/
def VotesRead (n : ℕ) (dbs : ActiveSidechainDbs) (ds : List CoinbaseMsg) (s : SidechainNumber)
    (m6id : M6id) (info : PendingM6idInfo) : Prop :=
  (∃ p info₀, dbs.pendingM6ids.get? s = some p ∧ p.get? m6id = some info₀ ∧
    info.proposalHeight = info₀.proposalHeight ∧
    info.voteCount.toNat = walk info₀.voteCount.toNat (votes s m6id ds)) ∨
  (info.proposalHeight = n ∧ ∃ l, l <:+ votes s m6id ds ∧ info.voteCount.toNat = walk 1 l)

/-- The messages of a coinbase vote for the bundles one after another. -/
theorem ran_votes (hr : Ran h n parent prevDiff t₀ msgs t ds) :
    EachBundle t.activeSidechains (VotesRead n t₀.activeSidechains ds) := by
  induction hr with
  | start =>
    intro s p m6id info hp hi
    exact .inl ⟨p,info,hp,hi,rfl,rfl⟩
  | ignored _ _ ih => exact ih
  | @applied msgs t t' ds msg e d _ hh ha ih =>
    intro s q m6id info hq hi
    have hvotes : votes s m6id (ds++[d]) = votes s m6id ds++(d.vote s m6id).toList := by
      cases hv : d.vote s m6id <;> simp [votes,hv]
    rcases message_bundles hh ha hq with ⟨-,rfl⟩ | ⟨p,hp,⟨m,rfl,-,hnew,rfl⟩ | ⟨hd,f,rfl,hf⟩⟩
    · cases hi
    · -- the votes before the proposal of a bundle do not count for it
      have hnone : votes s m6id (ds++[.proposeBundle ⟨s,m⟩]) = votes s m6id ds := by
        simp [votes,CoinbaseMsg.vote]
      rw [VotesRead,hnone]
      rw [OrderMap.get?_insert] at hi
      split at hi
      · obtain rfl := Option.some.inj hi
        exact .inr ⟨rfl,[],List.nil_suffix,rfl⟩
      · exact ih s p m6id info hp hi
    · rw [OrderMap.get?_mapVals] at hi
      obtain ⟨info₁,hi₁,rfl⟩ := Option.map_eq_some_iff.mp hi
      obtain ⟨hheight,hcount⟩ := hf m6id info₁ hi₁
      rw [CoinbaseMsg.countVotes_eq (hd m6id)] at hcount
      rw [VotesRead,hheight,hcount,hvotes]
      rcases ih s p m6id info₁ hp hi₁ with ⟨p₀,info₀,hp₀,hi₀,hk,hv⟩ | ⟨hk,l,hl,hv⟩
      · exact .inl ⟨p₀,info₀,hp₀,hi₀,hk,by rw [hv,walk_append]⟩
      · refine .inr ⟨hk,l++(d.vote s m6id).toList,?_,by rw [hv,walk_append]⟩
        obtain ⟨before,hbefore⟩ := hl
        exact ⟨before,by rw [← hbefore,List.append_assoc]⟩

theorem ran_acks_length (hr : Ran h n parent prevDiff t₀ msgs t ds) :
    (ds.filter CoinbaseMsg.isAckBundles).length ≤ (msgs.filter CoinbaseMessage.isM4).length := by
  induction hr with
  | start => exact Nat.le_refl 0
  | ignored _ _ ih =>
    rw [List.filter_append,List.length_append]
    omega
  | @applied msgs t t' ds msg e d _ hh ha ih =>
    have hone : ([d].filter CoinbaseMsg.isAckBundles).length ≤
        ([msg].filter CoinbaseMessage.isM4).length := by
      cases hm : msg.isM4 with
      | true =>
        rw [List.filter_cons_of_pos hm]
        exact (List.length_filter_le _ _).trans (Nat.le_refl 1)
      | false =>
        have hno := noVotes_of_handled hh hm
        cases d with
        | ackBundles ab => exact absurd rfl (hno ab)
        | _ => exact Nat.zero_le _
    rw [List.filter_append,List.filter_append,List.length_append,List.length_append]
    omega

end Ran

section Blocks

variable [Bitcoin] {D : BlockHash → Option Diff.Block} {s : SidechainNumber} {m6id : M6id}

/-- The vote that a block gives a bundle, as its stored diff says. -/
def blockVotes (D : BlockHash → Option Diff.Block) (s : SidechainNumber) (m6id : M6id) (b : Block) :
    List Vote :=
  ((storedAction D s b.blockHash).map (AckBundleAction.vote m6id)).toList

def votesOf (D : BlockHash → Option Diff.Block) (s : SidechainNumber) (m6id : M6id)
    (blocks : List Block) : List Vote :=
  blocks.reverse.flatMap (blockVotes D s m6id)

def Chain.blocksFrom (c : Chain) (k : ℕ) : List Block := c.take (c.length-k)

theorem votesOf_cons (b : Block) (blocks : List Block) :
    votesOf D s m6id (b::blocks) = votesOf D s m6id blocks++blockVotes D s m6id b := by
  simp [votesOf]

omit [Bitcoin] in
theorem Chain.blocksFrom_cons {c : Chain} {k : ℕ} (b : Block) (hk : k ≤ c.length) :
    Chain.blocksFrom (b::c) k = b::c.blocksFrom k := by
  rw [blocksFrom,blocksFrom,List.length_cons,Nat.sub_add_comm hk,List.take_succ_cons]

omit [Bitcoin] in
theorem Chain.blocksFrom_of_le {c : Chain} {k : ℕ} (hk : c.length ≤ k) : c.blocksFrom k = [] := by
  rw [blocksFrom,Nat.sub_eq_zero_of_le hk,List.take_zero]

theorem votesOf_take_suffix (D : BlockHash → Option Diff.Block) (s : SidechainNumber)
    (m6id : M6id) (c : List Block) {i j : ℕ} (hij : i ≤ j) :
    votesOf D s m6id (c.take i) <:+ votesOf D s m6id (c.take j) := by
  obtain ⟨rest,hrest⟩ := List.take_prefix_take_left hij
  exact ⟨votesOf D s m6id rest,by rw [← hrest]; simp [votesOf]⟩

theorem RecordsBallot.count_le {b : Block} {ballot : Ballot} (hr : RecordsBallot D s b ballot) (v : Vote) :
    (blockVotes D s m6id b).count v ≤ given m6id v [ballot] := by
  obtain ⟨p,vote⟩ := ballot
  rw [blockVotes,hr.1]
  cases vote with
  | upvote target =>
    by_cases hc : p.contains target = true <;>
      simp [Ballot.action,BundleVote.action,hc,AckBundleAction.vote,given,BundleVote.on,
        List.count_singleton,List.countP_singleton]
  | alarm =>
    by_cases hc : (positiveVotesProposalsForAlarm p).isEmpty = true <;>
      simp [Ballot.action,BundleVote.action,hc,AckBundleAction.vote,given,BundleVote.on,
        List.count_singleton,List.countP_singleton]
  | abstain => simp [Ballot.action,BundleVote.action]

theorem RecordsBallot.up_le {b : Block} {ballot : Ballot} (hr : RecordsBallot D s b ballot) :
    given m6id .up [ballot] ≤ (blockVotes D s m6id b).count .up := by
  obtain ⟨p,vote⟩ := ballot
  rw [blockVotes,hr.1]
  cases vote with
  | upvote target =>
    simp [Ballot.action,BundleVote.action,hr.2 target rfl,AckBundleAction.vote,given,BundleVote.on,
      List.count_singleton,List.countP_singleton]
  | alarm => simp [given,BundleVote.on]
  | abstain => simp [given,BundleVote.on]

omit [Bitcoin] in
theorem given_cons (v : Vote) (ballot : Ballot) (l : List Ballot) :
    given m6id v (ballot::l) = given m6id v l+given m6id v [ballot] := by
  rw [← List.singleton_append,given,List.countP_append,Nat.add_comm]
  rfl

variable {blocks : List Block} {l : List Ballot}

theorem count_votesOf_le (hr : List.Forall₂ (RecordsBallot D s) blocks l) (v : Vote) :
    (votesOf D s m6id blocks).count v ≤ given m6id v l := by
  induction hr with
  | nil => exact Nat.zero_le _
  | cons hb _ ih =>
    rw [votesOf_cons,List.count_append,given_cons]
    exact Nat.add_le_add ih (hb.count_le v)

theorem given_up_le (hr : List.Forall₂ (RecordsBallot D s) blocks l) :
    given m6id .up l ≤ (votesOf D s m6id blocks).count .up := by
  induction hr with
  | nil => exact Nat.zero_le _
  | cons hb _ ih =>
    rw [votesOf_cons,List.count_append,given_cons]
    exact Nat.add_le_add ih hb.up_le

end Blocks

section Chain

variable [Bitcoin] {h : BlockHandler} {V : Chain → Block → Prop} {stale : Prop}
  {D : BlockHash → Option Diff.Block} {c : Chain} {t t₂ : ConsensusDbs} {dbs : Dbs} {b : Block}
  {s : SidechainNumber} {m6id : M6id} {info : PendingM6idInfo}

/-- The votes of a pending bundle are those of all blocks above its proposal, after the ones
that follow the proposal in its own block. -/
def Counted (D : BlockHash → Option Diff.Block) (c : Chain) (s : SidechainNumber) (m6id : M6id)
    (info : PendingM6idInfo) : Prop :=
  ∃ l, l <:+ votesOf D s m6id (c.blocksFrom info.proposalHeight) ∧
    votesOf D s m6id (c.blocksFrom (info.proposalHeight+1)) <:+ l ∧
    info.voteCount.toNat = walk 1 l

theorem VotesRead.counted {ds : List CoinbaseMsg} (hg : Grown h V stale D c t)
    (hold : EachBundle t.activeSidechains (Counted D c))
    (hvotes : blockVotes D s m6id b = votes s m6id ds)
    (hr : VotesRead c.length t.activeSidechains ds s m6id info) : Counted D (b::c) s m6id info := by
  unfold Counted
  rcases hr with ⟨p,info₀,hp,hi,hk,hv⟩ | ⟨hk,l,hl,hv⟩
  · obtain ⟨l,⟨before,hbefore⟩,⟨mid,hmid⟩,hcount⟩ := hold s p m6id info₀ hp hi
    have hlast := (hg.pendingBounds s p hp).last _ (PendingM6ids.mem_heights.mpr ⟨m6id,info₀,hi,rfl⟩)
    refine ⟨l++votes s m6id ds,⟨before,?_⟩,⟨mid,?_⟩,by rw [hv,hcount,walk_append]⟩
    · rw [hk,Chain.blocksFrom_cons b (by omega),votesOf_cons,hvotes,← hbefore,List.append_assoc]
    · rw [hk,Chain.blocksFrom_cons b (by omega),votesOf_cons,hvotes,← hmid,List.append_assoc]
  · refine ⟨l,?_,?_,hv⟩
    · rw [hk,Chain.blocksFrom_cons b (Nat.le_refl _),Chain.blocksFrom_of_le (Nat.le_refl _),
        votesOf_cons,hvotes]
      exact hl
    · rw [hk,Chain.blocksFrom_of_le (by simp)]
      exact List.nil_suffix

theorem BlockHandler.CoinbaseDone.votesRead {parent : BlockHash} {prevDiff : Option Diff.Block}
    {coinbase : Transaction} {scan : CoinbaseScan} {t₁ : ConsensusDbs} {events : List BlockEvent}
    {d : Coinbase} {n : ℕ}
    (hc : CoinbaseDone h t n parent prevDiff coinbase scan t₁ t₂ events d) (hw : t.Wf) :
    EachBundle t₂.activeSidechains (VotesRead n t.activeSidechains d.msgs) := by
  obtain ⟨m,hm,hkeep,hnone⟩ := failedM6ids_apply (ran_wf hc.ran hw).tables hc.failedM6ids hc.applied
  intro s q m6id info hq hi
  rw [hm] at hq
  cases hp : t₁.activeSidechains.pendingM6ids.get? s with
  | none =>
    rw [hnone s hp] at hq
    cases hq
  | some p =>
    obtain ⟨q',hq',hentries⟩ := hkeep s p hp
    obtain rfl := Option.some.inj (hq.symm.trans hq')
    exact ran_votes hc.ran s p m6id info hp ((OrderMap.get?_filter hentries).mp hi).1

/-- A bundle that is paid in a block was pending with enough votes before its transactions. -/
theorem paid_bundle {accepted : BmmCommitments} {parent hash : BlockHash} {txs : List Transaction}
    {acc₀ acc : TxState} (hpay : h.requirePayableBundles = true) (hnil : acc₀.diffs = [])
    (hf : txs.foldlM (h.connectTx accepted parent hash) acc₀ = .ok acc)
    (hp : Pays s m6id acc.diffs) :
    ∃ p info, acc₀.dbs.pendingM6ids.get? s = some p ∧ p.get? m6id = some info ∧
      h.thresholds.withdrawalBundleInclusionThreshold < info.voteCount := by
  refine (Fallible.foldlM_invariant (fun acc => PendingLeft acc₀.dbs acc ∧
    ∀ s m6id, Pays s m6id acc.diffs → ∃ p info, acc₀.dbs.pendingM6ids.get? s = some p ∧
      p.get? m6id = some info ∧ h.thresholds.withdrawalBundleInclusionThreshold < info.voteCount)
    hf ⟨pendingLeft_refl hnil,?_⟩ ?_).2 s m6id hp
  · rintro s m6id ⟨d,hd,-⟩
    rw [hnil] at hd
    cases hd
  · rintro tx acc acc' - ⟨hleft,hpaid⟩ hstep
    obtain ⟨infos,res,hd⟩ := connectTx_ok hstep
    refine ⟨hleft.step hd,fun s m6id hpays => ?_⟩
    have heff := hd.effect
    match res with
    | none =>
      rw [heff.2.2] at hpays
      exact hpaid s m6id hpays
    | some (.m5Deposits deposits d) =>
      rw [heff.2.2] at hpays
      rcases pays_append hpays with hpays | ⟨d',hd',-⟩
      · exact hpaid s m6id hpays
      · cases hd'
    | some (.m6Withdrawal s' m n d) =>
      rw [heff.2.2] at hpays
      rcases pays_append hpays with hpays | ⟨d',hd',hs,hm⟩
      · exact hpaid s m6id hpays
      · obtain rfl := Tx.m6.inj hd'
        obtain ⟨i,-,-,hmake,rfl,-⟩ := hd.outcome
        obtain ⟨ctip,p,hw⟩ := makeM6_ok.mp hmake
        obtain ⟨p₀,hp₀,hall⟩ := hleft s' p hw.pending
        have hi := (hall _ _ (OrderMap.getFull_get? hw.position)).1
        rw [hw.slot] at hs
        subst hs hm
        exact ⟨p₀,_,hp₀,hi,hw.payable hpay⟩

theorem Accepted.blockVotes_eq {coinbase : Transaction} {txs : List Transaction}
    {res : ProcessedBlock} (ha : Accepted h D c t b coinbase txs res)
    (hs : D b.blockHash = some res.diff) (s : SidechainNumber) (m6id : M6id) :
    blockVotes D s m6id b = votes s m6id res.diff.coinbase.msgs := by
  have hone : (res.diff.coinbase.msgs.filter CoinbaseMsg.isAckBundles).length ≤ 1 := by
    rcases processBlock_ok ha.processed with
      ⟨-,rfl⟩ | ⟨-,scan,t₁,t₂,accepted,events,d,acc,-,hc,-,rfl⟩
    · exact Nat.zero_le _
    · obtain ⟨hmsgs,hone⟩ := scanCoinbase_ok hc.scanned
      rw [← hmsgs] at hone
      exact (ran_acks_length hc.ran).trans hone.m4
  rw [votes_eq hone,blockVotes,storedAction,hs]
  rfl

/-- The votes of every pending bundle of a chain are counted. -/
theorem Grown.counted (hg : Grown h V False D c t) :
    EachBundle t.activeSidechains (Counted D c) := by
  induction hg with
  | base hb =>
    obtain ⟨i,hi,-⟩ := hb.bare.active
    intro s p m6id info hp
    rw [hi] at hp
    simp [ActiveSidechainDbs.empty,ActiveSidechainDbs.setIndex] at hp
  | @connect c t t' b coinbase txs res hg hv ha hs hl ih =>
    obtain ⟨⟨i,hi,-⟩,-⟩ := hl
    have hpending : t'.activeSidechains.pendingM6ids = res.dbs.activeSidechains.pendingM6ids := by
      rw [hi]; rfl
    intro s p m6id info hp hinfo
    rw [hpending] at hp
    have hvotes := ha.blockVotes_eq hs s m6id
    rcases processBlock_ok ha.processed with
      ⟨-,rfl⟩ | ⟨-,scan,t₁,t₂,accepted,events,d,acc,-,hc,hf,rfl⟩
    · exact VotesRead.counted hg ih hvotes (.inl ⟨p,info,hp,hinfo,rfl,rfl⟩)
    · have hleft := Fallible.foldlM_invariant (PendingLeft t₂.activeSidechains) hf
        (pendingLeft_refl rfl) (fun tx acc acc' _ hI hstep => by
          obtain ⟨infos,r,hd⟩ := connectTx_ok hstep
          exact hI.step hd)
      obtain ⟨p₀,hp₀,hall⟩ := hleft s p hp
      exact (hc.votesRead hg.wf.1 s p₀ m6id info hp₀ (hall m6id info hinfo).1).counted hg ih hvotes

theorem Grown.split {above below : Chain} (hg : Grown h V False D (above++b::below) t) :
    ∃ t₀ coinbase txs res, Grown h V False D below t₀ ∧ Accepted h D below t₀ b coinbase txs res ∧
      D b.blockHash = some res.diff := by
  induction above generalizing t with
  | nil =>
    cases hg with
    | base hb => cases (hb.empty not_false).1
    | connect hg hv ha hs hl => exact ⟨_,_,_,_,hg,ha,hs⟩
  | cons b' above ih =>
    cases hg with
    | base hb => cases (hb.empty not_false).1
    | connect hg hv ha hs hl => exact ih hg

theorem Reach.ballots {params : NetworkParams} (fork : Fork) (network : Network)
    (hparams : params.thresholds = .forNetwork fork network)
    (hr : Reach (.new params) V False dbs c) (s : SidechainNumber) :
    (∃ l, Ballots (.new params) V dbs.blockHashes.diff.get? s c dbs.toConsensusDbs l) ∧
      ∀ l, Ballots (.new params) V dbs.blockHashes.diff.get? s c dbs.toConsensusDbs l →
        List.Forall₂ (RecordsBallot dbs.blockHashes.diff.get? s) c l := by
  have hage := (Thresholds.forNetwork_maxAge fork network).2
  rw [← hparams] at hage
  have halarm : M4AckBundles.alarmTwoBytes.toNat = 0xFFFE := rfl
  have hsame : (BlockHandler.new params).thresholds = params.thresholds := rfl
  have hmax : (BlockHandler.new params).thresholds.withdrawalBundleMaxAge.toNat+3 < 0xFFFF := by
    rw [hsame]
    omega
  exact ⟨hr.synced.grown.ballots hmax s,fun l hb => hb.recorded hmax⟩

/-- The votes of a pending bundle: at most one more than the blocks since its proposal whose
`M4` upvotes it, and at least the upvotes less the downvotes of any number of blocks at the
tip. -/
theorem pending_votes {params : NetworkParams} (fork : Fork) (network : Network)
    (hparams : params.thresholds = .forNetwork fork network)
    (hr : Reach (.new params) V False dbs c) {p : PendingM6ids}
    (hp : dbs.activeSidechains.pendingM6ids.get? s = some p) (hi : p.get? m6id = some info) :
    (∃ ballots, Ballots (.new params) V dbs.blockHashes.diff.get? s c dbs.toConsensusDbs ballots) ∧
    ∀ ballots, Ballots (.new params) V dbs.blockHashes.diff.get? s c dbs.toConsensusDbs ballots →
      info.voteCount.toNat ≤ 1+given m6id .up (ballots.take (c.length-info.proposalHeight)) ∧
      ∀ j, j+info.proposalHeight < c.length →
        given m6id .up (ballots.take j) ≤
          info.voteCount.toNat+given m6id .down (ballots.take j) := by
  obtain ⟨hex,hrec⟩ := hr.ballots fork network hparams s
  obtain ⟨l,hall,hlater,hv⟩ := hr.synced.grown.counted s p m6id info hp hi
  refine ⟨hex,fun ballots hb => ⟨?_,fun j hj => ?_⟩⟩
  · have hle := (walk_le 1 l).trans (Nat.add_le_add_left (hall.sublist.count_le _) 1)
    rw [hv]
    exact hle.trans (Nat.add_le_add_left
      (count_votesOf_le (List.forall₂_take _ (hrec ballots hb)) .up) 1)
  · have htake := List.forall₂_take j (hrec ballots hb)
    have hsuffix := (votesOf_take_suffix dbs.blockHashes.diff.get? s m6id c
      (show j ≤ c.length-(info.proposalHeight+1) by omega)).trans hlater
    rw [hv]
    calc given m6id .up (ballots.take j)
        ≤ (votesOf dbs.blockHashes.diff.get? s m6id (c.take j)).count .up := given_up_le htake
      _ ≤ walk 1 l+(votesOf dbs.blockHashes.diff.get? s m6id (c.take j)).count .down :=
          suffix_le_walk hsuffix
      _ ≤ walk 1 l+given m6id .down (ballots.take j) :=
          Nat.add_le_add_left (count_votesOf_le htake .down) _

/-- A block that pays a bundle out lies at most the maximal age above the block that proposed
it, and the `M4` messages of as many blocks as the inclusion threshold says have upvoted the
bundle since then. -/
theorem withdrawal_votes {params : NetworkParams} (fork : Fork) (network : Network)
    (hparams : params.thresholds = .forNetwork fork network) {above below : Chain} {d : Diff.Block}
    (hr : Reach (.new params) V False dbs c) (hc : c = above++b::below)
    (hd : dbs.blockHashes.diff.get? b.blockHash = some d) (hp : Pays s m6id d.txs) :
    (∃ ballots, Ballots (.new params) V dbs.blockHashes.diff.get? s c dbs.toConsensusDbs ballots) ∧
    ∃ k, ProposedAt (b::below) s m6id k ∧
      below.length ≤ k+params.thresholds.withdrawalBundleMaxAge.toNat ∧
      ∀ ballots, Ballots (.new params) V dbs.blockHashes.diff.get? s c dbs.toConsensusDbs ballots →
        params.thresholds.withdrawalBundleInclusionThreshold.toNat ≤
          given m6id .up ((ballots.drop above.length).take (below.length+1-k)) := by
  obtain ⟨hex,hrec⟩ := hr.ballots fork network hparams s
  refine ⟨hex,?_⟩
  subst hc
  obtain ⟨t₀,coinbase,txs,res,hg,ha,hs⟩ := hr.synced.grown.split
  obtain rfl := Option.some.inj (hs.symm.trans hd)
  have hvotes := ha.blockVotes_eq hs s m6id
  rcases processBlock_ok ha.processed with
    ⟨-,rfl⟩ | ⟨-,scan,t₁,t₂,accepted,events,d,acc,-,hc,hf,rfl⟩
  · obtain ⟨d,hd,-⟩ := hp
    cases hd
  · obtain ⟨p,info,hpend,hi,hth⟩ := paid_bundle rfl rfl hf hp
    obtain ⟨hread,hage⟩ := hc.bundles hg.wf.1 hg.bundles s p m6id info hpend hi
    obtain ⟨l,hall,-,hv⟩ :=
      (hc.votesRead hg.wf.1 s p m6id info hpend hi).counted hg hg.counted hvotes
    refine ⟨info.proposalHeight,?_,?_,fun ballots hb => ?_⟩
    · rcases hread.proposed with hprop | ⟨hk,hm⟩
      · exact hprop.cons b
      · exact ⟨[],b,below,rfl,hk.symm,by rw [ha.messages]; exact hm⟩
    · have hage : below.length-info.proposalHeight ≤
          params.thresholds.withdrawalBundleMaxAge.toNat := hage
      omega
    · have hpart := List.forall₂_take (below.length+1-info.proposalHeight)
        (List.forall₂_drop above.length (hrec ballots hb))
      rw [List.drop_left] at hpart
      have hle := (walk_le 1 l).trans (Nat.add_le_add_left ((hall.sublist.count_le _).trans
        (count_votesOf_le hpart .up)) 1)
      have hth := UInt16.lt_iff_toNat_lt.mp hth
      have hnew : (BlockHandler.new params).thresholds = params.thresholds := rfl
      rw [hnew] at hth
      omega

/-- The bundles of a slot that have the votes that a withdrawal needs. -/
def payable (threshold : UInt16) (p : PendingM6ids) : List (M6id × PendingM6idInfo) :=
  p.entries.filter (fun e => threshold < e.2.voteCount)

omit [Bitcoin] in
theorem mem_payable {threshold : UInt16} {p : PendingM6ids} {e : M6id × PendingM6idInfo} :
    e ∈ payable threshold p ↔ p.get? e.1 = some e.2 ∧ threshold < e.2.voteCount := by
  rw [payable,List.mem_filter,decide_eq_true_eq,← OrderMap.mem_entries]

/-- Under the thresholds of a network, at most one pending bundle of each slot has the votes
that a withdrawal needs. -/
theorem payable_at_most_one {params : NetworkParams} (fork : Fork) (network : Network)
    (hparams : params.thresholds = .forNetwork fork network)
    (hr : Reach (.new params) V stale dbs c) {p : PendingM6ids}
    (hp : dbs.activeSidechains.pendingM6ids.get? s = some p) :
    (payable params.thresholds.withdrawalBundleInclusionThreshold p).length ≤ 1 := by
  have hn : ((payable params.thresholds.withdrawalBundleInclusionThreshold p).map Prod.fst).Nodup :=
    p.nodup.sublist (List.filter_sublist.map Prod.fst)
  match hl : payable params.thresholds.withdrawalBundleInclusionThreshold p with
  | [] => exact Nat.zero_le 1
  | [_] => exact Nat.le_refl 1
  | a::b::rest =>
    obtain ⟨ha,hva⟩ := mem_payable.mp (show a ∈ payable _ p by rw [hl]; simp)
    obtain ⟨hb,hvb⟩ := mem_payable.mp (show b ∈ payable _ p by rw [hl]; simp)
    have heq := approved_unique fork network hparams hr hp ha hb hva hvb
    simp [hl,heq] at hn

end Chain

section Sample

open Sample TreasurySample

theorem pending_votes_sample :
    ∃ p info ballots, run.1.activeSidechains.pendingM6ids.get? 0 = some p ∧
      p.get? bundle = some info ∧ info.voteCount = 6 ∧
      Ballots handler UtxoValid run.1.blockHashes.diff.get? 0 run.2 run.1.toConsensusDbs ballots ∧
      5 ≤ given bundle .up (ballots.take (run.2.length-info.proposalHeight)) := by
  obtain ⟨p,hp⟩ := Option.isSome_iff_exists.mp
    (show (run.1.activeSidechains.pendingM6ids.get? 0).isSome = true by decide +kernel)
  obtain ⟨info,hi⟩ := Option.isSome_iff_exists.mp
    (show (((run.1.activeSidechains.pendingM6ids.get? 0).bind
      (fun p => p.get? bundle))).isSome = true by decide +kernel)
  have hv : ((run.1.activeSidechains.pendingM6ids.get? 0).bind (fun p => p.get? bundle)).map
      PendingM6idInfo.voteCount = some 6 := by decide +kernel
  rw [hi] at hv
  rw [hp,Option.bind_some] at hi
  obtain ⟨⟨ballots,hb⟩,hvotes⟩ := pending_votes .bitcoin .regtest rfl reach_run hp hi
  have hsix := Option.some.inj hv
  have hle := (hvotes ballots hb).1
  rw [hsix] at hle
  exact ⟨p,info,ballots,hp,hi,hsix,hb,Nat.le_of_add_le_add_left (show 1+5 ≤ 1+_ from hle)⟩

namespace VotesSample

def paid : Dbs × Chain :=
  Call.runAll handler UtxoValid (Call.connectAll (blocks++[paying]))

theorem reach_paid : Reach handler UtxoValid False paid.1 paid.2 := Call.reach_connects _ _

def paidDiff : Diff.Block :=
  (paid.1.blockHashes.diff.get? paying.blockHash).getD (emptyBlockInfoAndDiff 0).2

def two : Dbs × Chain :=
  Call.runAll handler UtxoValid (Call.connectAll (blocksOn allZeros 0
    (contents++[([m3Script 0 (bundle+1)],[])])))

theorem reach_two : Reach handler UtxoValid False two.1 two.2 := Call.reach_connects _ _

def twoPending : PendingM6ids := (two.1.activeSidechains.pendingM6ids.get? 0).getD .empty

end VotesSample

theorem withdrawal_votes_sample :
    Pays 0 bundle VotesSample.paidDiff.txs ∧ ∃ k ballots, ProposedAt VotesSample.paid.2 0 bundle k ∧
      Ballots handler UtxoValid VotesSample.paid.1.blockHashes.diff.get? 0 VotesSample.paid.2
        VotesSample.paid.1.toConsensusDbs ballots ∧
      5 ≤ given bundle .up (ballots.take (run.2.length+1-k)) := by
  have hc : VotesSample.paid.2 = []++paying::run.2 := by decide +kernel
  have hd : VotesSample.paid.1.blockHashes.diff.get? paying.blockHash =
      some VotesSample.paidDiff := by decide +kernel
  have hp : Pays 0 bundle VotesSample.paidDiff.txs := by
    have hx : VotesSample.paidDiff.txs.any (fun tx => match tx with
        | .m6 d => d.sidechainNumber = 0 ∧ d.removedPendingWithdrawal = bundle
        | _ => false) = true := by decide +kernel
    obtain ⟨tx,hm,htx⟩ := List.any_eq_true.mp hx
    cases tx with
    | m5 d => simp at htx
    | m6 d => exact ⟨d,hm,by simpa using htx⟩
  obtain ⟨⟨ballots,hb⟩,k,hk,-,hvotes⟩ :=
    withdrawal_votes .bitcoin .regtest rfl VotesSample.reach_paid hc hd hp
  refine ⟨hp,k,ballots,?_,hb,hvotes ballots hb⟩
  rw [hc]
  exact hk

theorem payable_at_most_one_sample :
    VotesSample.twoPending.len = 2 ∧ (payable
      handler.params.thresholds.withdrawalBundleInclusionThreshold VotesSample.twoPending).length ≤ 1 := by
  have hp : VotesSample.two.1.activeSidechains.pendingM6ids.get? 0 = some VotesSample.twoPending := by
    decide +kernel
  exact ⟨by decide +kernel,payable_at_most_one .bitcoin .regtest rfl VotesSample.reach_two hp⟩

end Sample

end Bip300301Enforcer
