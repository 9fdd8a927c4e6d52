import Bip300301Enforcer.Rejections
import Bip300301Enforcer.Runs

/-! A proposal is pruned exactly when no acks could activate it any more. -/
namespace Bip300301Enforcer
open Lib Chain BlockHandler Diff

namespace Thresholds

def maxAge (th : Thresholds) (occupied : Bool) : ℕ :=
  if occupied then th.withdrawalBundleMaxAge.toNat else th.unusedSidechainSlotProposalMaxAge.toNat

def threshold (th : Thresholds) (occupied : Bool) : ℕ :=
  if occupied then th.withdrawalBundleInclusionThreshold.toNat
  else th.unusedSidechainSlotActivationThreshold.toNat

/-- A threshold can be reached in time, and it is not easier to take a slot from a
sidechain than to take an unused one. -/
structure Ordered (th : Thresholds) : Prop where
  reachable : ∀ occupied, th.threshold occupied ≤ th.maxAge occupied
  maxAge : th.maxAge false ≤ th.maxAge true
  threshold : th.threshold false ≤ th.threshold true

theorem forNetwork_ordered (fork : Fork) (network : Network) : (forNetwork fork network).Ordered := by
  refine ⟨fun occupied => ?_,?_,?_⟩
  · cases fork <;> cases network <;> cases occupied <;> decide
  · cases fork <;> cases network <;> decide
  · cases fork <;> cases network <;> decide

theorem activates_iff (th : Thresholds) (occupied : Bool) (votes age : ℕ) :
    th.Activates occupied votes age ↔ th.threshold occupied < votes ∧ age ≤ th.maxAge occupied := by
  cases occupied <;> rfl

end Thresholds

section Pruning

variable {h : BlockHandler} {V : Chain → Block → Prop} {c : Chain} {dbs : Dbs}
  {t t' t₀ : ConsensusDbs} {n : ℕ} {parent : BlockHash} {prevDiff : Option Diff.Block}
  {msg : CoinbaseMessage} {msgs : List CoinbaseMessage} {ds : List CoinbaseMsg}
  {id : SidechainProposalId} {sc : Sidechain}

def ConsensusDbs.occupied (t : ConsensusDbs) (id : SidechainProposalId) : Bool :=
  t.activeSidechains.sidechain.contains id.sidechainNumber

theorem proposalFailed_iff (id : SidechainProposalId) (hsc : sc.proposal.sidechainNumber = id.sidechainNumber) :
    h.proposalFailed t n sc = true ↔
      h.thresholds.maxAge (t.occupied id) < n-sc.status.proposalHeight ∨
      h.thresholds.maxAge (t.occupied id)-h.thresholds.threshold (t.occupied id) <
          n-sc.status.proposalHeight ∧
        h.thresholds.maxAge (t.occupied id)-h.thresholds.threshold (t.occupied id) ≤
          n-sc.status.proposalHeight-sc.status.voteCount.toNat := by
  unfold proposalFailed ConsensusDbs.occupied Thresholds.maxAge Thresholds.threshold
  rw [hsc]
  simp only [Bool.or_eq_true,Bool.and_eq_true,decide_eq_true_eq]

/-- Within a coinbase, a pending proposal has too few votes, or it got its last vote in
this block and is too old. -/
def VotesMissing (h : BlockHandler) (n : ℕ) (msgs : List CoinbaseMessage) (t : ConsensusDbs) :
    Prop :=
  EachProposal t (fun id sc => sc.status.voteCount.toNat ≤ h.thresholds.threshold (t.occupied id) ∨
    h.thresholds.maxAge (t.occupied id) < n-sc.status.proposalHeight ∧ id.ack ∈ msgs)

theorem VotesMissing.mono (hv : VotesMissing h n msgs t) (msg : CoinbaseMessage) :
    VotesMissing h n (msgs++[msg]) t := by
  intro id sc hsc
  rcases hv id sc hsc with hle | ⟨hage,hm⟩
  · exact .inl hle
  · exact .inr ⟨hage,List.mem_append_left _ hm⟩

variable [Bitcoin]

theorem VotesMissing.step (hth : h.thresholds.Ordered) (hv : VotesMissing h n msgs t)
    (hm : MovesProposals h n t t' msg)
    (hnew : ∀ s, msg.m2Slot = some s → s ∉ msgs.filterMap CoinbaseMessage.m2Slot) :
    VotesMissing h n (msgs++[msg]) t' := by
  have hv' := hv.mono msg
  cases hm with
  | @proposed s description new proposals slots =>
    intro id sc hsc
    rw [ConsensusDbs.occupied,slots]
    rw [proposals,FinMap.get?_insert] at hsc
    split at hsc
    · obtain rfl := Option.some.inj hsc
      exact .inl (Nat.zero_le _)
    · exact hv' id sc hsc
  | @voted id' sc' pending earlier votes low proposals slots =>
    intro id sc hsc
    rw [ConsensusDbs.occupied,slots]
    rw [proposals,FinMap.get?_insert] at hsc
    split at hsc
    · rename_i he
      subst he
      obtain rfl := Option.some.inj hsc
      have hnot : ¬ h.thresholds.Activates (t.occupied id') (sc'.status.voteCount+1).toNat
          (n-sc'.status.proposalHeight) := by
        rw [← newSidechainActivated_iff]
        exact fun hact => Bool.false_ne_true (low.symm.trans hact)
      rw [Thresholds.activates_iff,toNat_add_one votes] at hnot
      have hvotes : (AckSidechainProposal.acked sc').status.voteCount.toNat =
          sc'.status.voteCount.toNat+1 := toNat_add_one votes
      have hheight : (AckSidechainProposal.acked sc').status.proposalHeight =
          sc'.status.proposalHeight := rfl
      by_cases hle : sc'.status.voteCount.toNat+1 ≤ h.thresholds.threshold (t.occupied id')
      · exact .inl (by rw [hvotes]; exact hle)
      · refine .inr ⟨?_,List.mem_append_right _ (List.mem_singleton_self _)⟩
        rw [hheight]
        by_contra hage
        exact hnot ⟨by omega,by unfold ConsensusDbs.occupied at *; omega⟩
    · exact hv' id sc hsc
  | @activated id' sc' pending earlier votes enough proposals slots =>
    intro id sc hsc
    rw [proposals,FinMap.get?_erase] at hsc
    split at hsc
    · cases hsc
    · rename_i hne
      by_cases hslot : id.sidechainNumber = id'.sidechainNumber
      · -- the slot is used now, and no other proposal for it was acked in this block
        have hocc : t'.occupied id = true := by
          rw [ConsensusDbs.occupied,slots,hslot]
          exact (FinMap.contains_iff _ _).mpr ⟨_,FinMap.get?_insert_self _ _ _⟩
        rw [hocc]
        rcases hv id sc hsc with hle | ⟨-,hack⟩
        · left
          cases hu : t.occupied id with
          | true => rwa [hu] at hle
          | false =>
            rw [hu] at hle
            exact hle.trans hth.threshold
        · exact absurd (hslot ▸ mem_m2Slots.mpr ⟨_,hack⟩) (hnew _ rfl)
      · have hocc : t'.occupied id = t.occupied id := by
          rw [ConsensusDbs.occupied,ConsensusDbs.occupied,slots,FinMap.contains,FinMap.contains,
            FinMap.get?_insert_ne _ _ (Ne.symm hslot)]
        rw [hocc]
        exact hv' id sc hsc
  | other noAck proposals slots =>
    intro id sc hsc
    rw [proposals] at hsc
    rw [ConsensusDbs.occupied,slots]
    exact hv' id sc hsc

theorem ran_votesMissing (hth : h.thresholds.Ordered)
    (hr : Ran h n parent prevDiff t₀ msgs t ds) (h₀ : VotesMissing h n [] t₀)
    (hone : (msgs.filterMap CoinbaseMessage.m2Slot).Nodup) : VotesMissing h n msgs t := by
  induction hr with
  | start => exact h₀
  | @ignored msgs t ds msg e hr hh ih =>
    rw [List.filterMap_append] at hone
    exact (ih (List.nodup_append.mp hone).1).mono msg
  | @applied msgs t t' ds msg e d hr hh ha ih =>
    rw [List.filterMap_append,List.nodup_append] at hone
    refine (ih hone.1).step hth (movesProposals hh ha) (fun s hs hmem => ?_)
    exact hone.2.2 s hmem s (List.mem_filterMap.mpr ⟨msg,List.mem_singleton_self _,hs⟩) rfl

/-- No pending proposal of a chain has the votes that it needs. -/
theorem Grown.votesMissing {D : BlockHash → Option Diff.Block} (hth : h.thresholds.Ordered)
    (hg : Grown h V False D c t) : EachProposal t (fun id sc =>
      sc.status.voteCount.toNat ≤ h.thresholds.threshold (t.occupied id)) := by
  induction hg with
  | @base c t hb =>
    intro id sc hsc
    rw [(hb.empty not_false).2] at hsc
    cases hsc
  | @connect c t t' b coinbase txs res hg hv ha hs hl ih =>
    obtain ⟨⟨i,hi,-⟩,hp⟩ := hl
    have hside : t'.activeSidechains.sidechain = res.dbs.activeSidechains.sidechain := by
      rw [hi]
      rfl
    have hw := hg.wf.1
    intro id sc hsc
    rw [hp] at hsc
    rw [ConsensusDbs.occupied,hside]
    rcases processBlock_ok ha.processed with
      ⟨hlt,rfl⟩ | ⟨hle,scan,t₁,t₂,accepted,events,d,acc,-,hc,hf,rfl⟩
    · exact ih id sc hsc
    · obtain ⟨hmsgs,hone⟩ := scanCoinbase_ok hc.scanned
      have hran := hc.ran
      rw [hmsgs] at hran
      have hmissing := ran_votesMissing hth hran (fun id sc hsc => .inl (ih id sc hsc)) hone.m2
      have hslots : acc.dbs.sidechain = t₁.activeSidechains.sidechain := by
        obtain ⟨-,hs,-⟩ := foldlM_connectTx (P := False) (T := fun _ => False) rfl hf
          (hc.wf hw).2.tables (fun hp => hp.elim)
        exact hs.trans (hc.frame hw).2.1
      have hsc' : t₂.proposalIdToSidechain.get? id = some sc := hsc
      rw [hc.proposals,FailedProposals.apply,FinMap.get?_eraseAll] at hsc'
      split at hsc'
      · cases hsc'
      · rename_i hkey
        rw [FinMap.mem_keys,hc.failedProposals,handleFailedSidechainProposals,FinMap.contains,
          FinMap.get?_filter,hsc'] at hkey
        have hkept : ¬ h.proposalFailed t₁ c.length sc = true := by simpa using hkey
        have hid := ((ran_wf hran hw).proposals id sc hsc').1
        rw [proposalFailed_iff id (by rw [← hid]; rfl),not_or] at hkept
        show sc.status.voteCount.toNat ≤
          h.thresholds.threshold (acc.dbs.sidechain.contains id.sidechainNumber)
        rw [hslots]
        rcases hmissing id sc hsc' with hle | ⟨hage,-⟩
        · exact hle
        · exact absurd hage hkept.1

/-- The tables of a later block, with a proposal that was acked in some of the blocks in
between and whose slot is used as before. -/
structure Continues (id : SidechainProposalId) (sc : Sidechain) (occupied : Bool) (acks : ℕ)
    (t : ConsensusDbs) : Prop where
  pending : ∃ sc', t.proposalIdToSidechain.get? id = some sc' ∧
    sc'.status.proposalHeight = sc.status.proposalHeight ∧
    sc'.status.voteCount.toNat = sc.status.voteCount.toNat+acks
  occupied : t.occupied id = occupied

omit [Bitcoin] in
/-- What an ack of a later block does to the proposal. -/
theorem Continues.ack {occupied : Bool} {acks : ℕ} (hc : Continues id sc occupied acks t)
    (hn : sc.status.proposalHeight < n) (hmax : sc.status.voteCount.toNat+acks ≠ 0xFFFF) :
    ∃ effect, h.handleM2AckSidechain t n id.sidechainNumber id.descriptionHash =
        .ok (some ⟨id,effect⟩) ∧
      (effect ≠ .noActivation ↔
        h.thresholds.threshold occupied < sc.status.voteCount.toNat+acks+1 ∧
          n-sc.status.proposalHeight ≤ h.thresholds.maxAge occupied) := by
  obtain ⟨⟨sc',hsc',hheight,hvotes⟩,hocc⟩ := hc
  have hne : sc'.status.voteCount ≠ 0xFFFF := by
    intro he
    rw [he] at hvotes
    exact hmax hvotes.symm
  have hearly : n ≠ sc'.status.proposalHeight := by omega
  have hinc : incrementVotes sc'.status.voteCount = .ok (sc'.status.voteCount+1) :=
    incrementVotes_ok.mpr ⟨hne,rfl⟩
  refine ⟨h.ackEffect (t.activeSidechains.sidechain.get? id.sidechainNumber)
    (sc'.status.voteCount+1) (n-sc'.status.proposalHeight),?_,?_⟩
  · simp only [handleM2AckSidechain,hsc',if_neg hearly,hinc]
    rfl
  · have hiff : h.newSidechainActivated (t.occupied id) (sc'.status.voteCount+1)
        (n-sc'.status.proposalHeight) = true ↔ _ := newSidechainActivated_iff h _ _ _
    rw [Thresholds.activates_iff,toNat_add_one hne,hocc,hheight,hvotes] at hiff
    rw [← hiff,Ne,ackEffect_noActivation,Bool.not_eq_false,← hocc,hheight]
    rfl

theorem Synced.proposal_votes (hs : Synced h V False dbs c)
    (hr : Ran h c.length parent prevDiff dbs.toConsensusDbs msgs t ds)
    (hone : (msgs.filterMap CoinbaseMessage.m2Slot).Nodup)
    (hsc : t.proposalIdToSidechain.get? id = some sc) :
    sc.status.voteCount.toNat+sc.status.proposalHeight ≤ c.length := by
  have hread := ran_proposals hr (fun id sc hsc => (hs.grown.proposals.1 id sc hsc).lt) hone
  rcases hread.proposals id sc hsc with ⟨hst,-⟩ | ⟨sc₀,hsc₀,rfl⟩
  · rw [hst]
    exact Nat.le_of_eq (Nat.zero_add _)
  · have hb := (hs.grown.proposalBounds id sc₀ hsc₀).votes
    split
    · rename_i hm
      have hvotes : (AckSidechainProposal.acked sc₀).status.voteCount.toNat =
          sc₀.status.voteCount.toNat+1 := toNat_add_one ((hread.acked id hm).2 sc₀ hsc₀)
      have hheight : (AckSidechainProposal.acked sc₀).status.proposalHeight =
          sc₀.status.proposalHeight := rfl
      omega
    · omega

omit [Bitcoin] in
theorem Thresholds.maxAge_lt (th : Thresholds) (occupied : Bool) : th.maxAge occupied < 65536 := by
  unfold Thresholds.maxAge
  split <;> exact UInt16.toNat_lt _

section Acks

variable (hth : h.thresholds.Ordered) (hslot : sc.proposal.sidechainNumber = id.sidechainNumber)
  (hvotes : sc.status.voteCount.toNat+sc.status.proposalHeight ≤ n)

omit [Bitcoin] in
include hth hslot hvotes in
theorem proposalFailed_noActivation {acks k : ℕ} {d : AckSidechainProposal}
    (hf : h.proposalFailed t n sc = true) (hacks : acks ≤ k)
    (hcont : Continues id sc (t.occupied id) acks t')
    (hd : h.handleM2AckSidechain t' (n+k+1) id.sidechainNumber id.descriptionHash = .ok (some d)) :
    d.effect = .noActivation := by
  have hreach := hth.reachable (t.occupied id)
  have hmax := h.thresholds.maxAge_lt (t.occupied id)
  by_cases hfull : sc.status.voteCount.toNat+acks = 0xFFFF
  · -- the vote cannot even be counted
    obtain ⟨⟨sc',hsc',hheight,hv⟩,-⟩ := hcont
    have hfullVotes : sc'.status.voteCount = 0xFFFF := UInt16.toNat_inj.mp (hv.trans hfull)
    have hearly : n+k+1 ≠ sc'.status.proposalHeight := by omega
    simp only [handleM2AckSidechain,hsc',if_neg hearly,hfullVotes,incrementVotes,if_true] at hd
    cases hd
  · obtain ⟨effect,heq,hact⟩ := hcont.ack (h := h) (n := n+k+1) (by omega) hfull
    obtain rfl := Option.some.inj (Except.ok.inj (hd.symm.trans heq))
    by_contra hne
    obtain ⟨hlt,hage⟩ := hact.mp hne
    rcases (proposalFailed_iff id hslot).mp hf with hold | ⟨-,hfails⟩
    · omega
    · omega

omit [Bitcoin] in
include hth hslot hvotes in
/-- A proposal that is kept past the fail window is activated in time by an ack in each block. -/
theorem kept_activates (hkept : h.proposalFailed t n sc = false)
    (hage : h.thresholds.maxAge (t.occupied id)-h.thresholds.threshold (t.occupied id) <
      n-sc.status.proposalHeight)
    (hlow : sc.status.voteCount.toNat ≤ h.thresholds.threshold (t.occupied id)) :
    ∃ k, n+k+1-sc.status.proposalHeight ≤ h.thresholds.maxAge (t.occupied id) ∧
      (∀ j < k, ∀ t', Continues id sc (t.occupied id) j t' →
        h.handleM2AckSidechain t' (n+j+1) id.sidechainNumber id.descriptionHash =
          .ok (some ⟨id,.noActivation⟩)) ∧
      (∀ j ≤ k, ∀ t', Continues id sc (t.occupied id) j t' → ∀ sc',
        t'.proposalIdToSidechain.get? id = some sc' → sc'.proposal = sc.proposal →
        h.proposalFailed t' (n+j) sc' = false) ∧
      ∀ t', Continues id sc (t.occupied id) k t' → ∃ effect,
        h.handleM2AckSidechain t' (n+k+1) id.sidechainNumber id.descriptionHash =
          .ok (some ⟨id,effect⟩) ∧ effect ≠ .noActivation := by
  have hreach := hth.reachable (t.occupied id)
  have hmax := h.thresholds.maxAge_lt (t.occupied id)
  have hnot : ¬ h.proposalFailed t n sc = true := by rw [hkept]; exact Bool.false_ne_true
  rw [proposalFailed_iff id hslot,not_or,not_and] at hnot
  have hfails := hnot.2 hage
  have hyoung := hnot.1
  refine ⟨h.thresholds.threshold (t.occupied id)-sc.status.voteCount.toNat,by omega,?_,?_,?_⟩
  · intro j hj t' hcont
    obtain ⟨effect,heq,hact⟩ := hcont.ack (h := h) (n := n+j+1) (by omega) (by omega)
    have hno : effect = .noActivation := by
      by_contra hne
      have := (hact.mp hne).1
      omega
    rw [heq,hno]
  · intro j hj t' hcont sc' hsc' hprop
    obtain ⟨⟨sc'',hsc'',hheight,hv⟩,hocc⟩ := hcont
    obtain rfl := Option.some.inj (hsc'.symm.trans hsc'')
    rw [← Bool.not_eq_true,proposalFailed_iff id (by rw [hprop]; exact hslot),hocc,hheight,hv]
    omega
  · intro t' hcont
    obtain ⟨effect,heq,hact⟩ := hcont.ack (h := h)
      (n := n+(h.thresholds.threshold (t.occupied id)-sc.status.voteCount.toNat)+1)
      (by omega) (by omega)
    exact ⟨effect,heq,hact.mpr ⟨by omega,by omega⟩⟩

end Acks

/-- A proposal that is pruned after the messages of a block could not have been activated by
any acks of later blocks, and one that is kept past the fail window is activated in time when
each of the next blocks acks it. -/
theorem proposal_pruning_exact (hth : h.thresholds.Ordered) (hr : Reach h V False dbs c)
    (parent : BlockHash) (prevDiff : Option Diff.Block) (coinbase : Transaction)
    (scan : CoinbaseScan) (acc : CoinbaseState) (hscan : scanCoinbase coinbase = .ok scan)
    (hdone : scan.messages.messages.foldlM (h.connectMessage c.length parent prevDiff
      scan.m1SidechainProposals) ⟨dbs.toConsensusDbs,.empty,[],[]⟩ = .ok acc)
    (n : ℕ) (hn : c.length ≤ n) (id : SidechainProposalId) (sc : Sidechain)
    (hsc : acc.dbs.proposalIdToSidechain.get? id = some sc) :
    ((h.handleFailedSidechainProposals acc.dbs n).proposals.contains id = true →
      ∀ acks k t d, acks ≤ k → Continues id sc (acc.dbs.occupied id) acks t →
        h.handleM2AckSidechain t (n+k+1) id.sidechainNumber id.descriptionHash = .ok (some d) →
        d.effect = .noActivation) ∧
    ((h.handleFailedSidechainProposals acc.dbs n).proposals.contains id = false →
      h.thresholds.maxAge (acc.dbs.occupied id)-h.thresholds.threshold (acc.dbs.occupied id) <
        n-sc.status.proposalHeight →
      ∃ k, n+k+1-sc.status.proposalHeight ≤ h.thresholds.maxAge (acc.dbs.occupied id) ∧
        (∀ j < k, ∀ t, Continues id sc (acc.dbs.occupied id) j t →
          h.handleM2AckSidechain t (n+j+1) id.sidechainNumber id.descriptionHash =
            .ok (some ⟨id,.noActivation⟩)) ∧
        (∀ j ≤ k, ∀ t, Continues id sc (acc.dbs.occupied id) j t → ∀ sc',
          t.proposalIdToSidechain.get? id = some sc' → sc'.proposal = sc.proposal →
          h.proposalFailed t (n+j) sc' = false) ∧
        ∀ t, Continues id sc (acc.dbs.occupied id) k t → ∃ effect,
          h.handleM2AckSidechain t (n+k+1) id.sidechainNumber id.descriptionHash =
            .ok (some ⟨id,effect⟩) ∧ effect ≠ .noActivation) := by
  have hs := hr.synced
  obtain ⟨hmsgs,hone⟩ := scanCoinbase_ok hscan
  rw [← hmsgs] at hone
  have hran := (ran_foldlM hdone).1
  have hid := ((ran_wf hran hs.grown.wf.1).proposals id sc hsc).1
  have hslot : sc.proposal.sidechainNumber = id.sidechainNumber := by rw [← hid]; rfl
  have hvotes := (hs.proposal_votes hran hone.m2 hsc).trans hn
  have hmissing := ran_votesMissing hth hran
    (fun id sc hsc => .inl (hs.grown.votesMissing hth id sc hsc)) hone.m2 id sc hsc
  have hfailed : (h.handleFailedSidechainProposals acc.dbs n).proposals.contains id =
      h.proposalFailed acc.dbs n sc := by
    rw [handleFailedSidechainProposals,FinMap.contains,FinMap.get?_filter,hsc]
    cases hf : h.proposalFailed acc.dbs n sc <;> simp [Option.filter,hf]
  rw [hfailed]
  refine ⟨fun hf acks k t d hacks hcont hd =>
    proposalFailed_noActivation hth hslot hvotes hf hacks hcont hd,fun hkept hage => ?_⟩
  refine kept_activates hth hslot hvotes hkept hage ?_
  rcases hmissing with hle | ⟨hold,-⟩
  · exact hle
  · have hyoung : ¬ h.proposalFailed acc.dbs n sc = true := by rw [hkept]; exact Bool.false_ne_true
    rw [proposalFailed_iff id hslot,not_or] at hyoung
    omega

end Pruning

section Sample

open Sample

namespace PruningSample

def handler : BlockHandler := .new (.new .bitcoin .regtest)

def proposal : SidechainProposalId := ⟨0,sha256d [1,2,3]⟩

def contents : List (List Script × List Transaction) :=
  [([],[]),([m1Script 0 [1,2,3]],[])]++List.replicate 3 ([m2Script 0 (sha256d [1,2,3])],[])

def run : Dbs × Chain :=
  Call.runAll handler (fun _ _ => True) (Call.connectAll (blocksOn allZeros 0 contents))

theorem reach_run : Reach handler (fun _ _ => True) False run.1 run.2 :=
  Call.reach_runAll _ (by decide)

def sidechain : Sidechain := ⟨⟨0,[1,2,3]⟩,⟨3,1,none⟩⟩

end PruningSample

open PruningSample

theorem proposal_pruning_exact_sample :
    (handler.handleFailedSidechainProposals run.1.toConsensusDbs 8).proposals.contains proposal =
      false ∧
    (∃ k, 8+k+1-1 ≤ 10 ∧ ∀ t, Continues proposal sidechain false k t → ∃ effect,
      handler.handleM2AckSidechain t (8+k+1) proposal.sidechainNumber proposal.descriptionHash =
        .ok (some ⟨proposal,effect⟩) ∧ effect ≠ .noActivation) ∧
    (handler.handleFailedSidechainProposals run.1.toConsensusDbs 9).proposals.contains proposal =
      true ∧
    ∀ acks k t d, acks ≤ k → Continues proposal sidechain false acks t →
      handler.handleM2AckSidechain t (9+k+1) proposal.sidechainNumber proposal.descriptionHash =
        .ok (some d) →
      d.effect = .noActivation := by
  obtain ⟨scan,hscan⟩ : ∃ scan, scanCoinbase ⟨1,0,[],[]⟩ = .ok scan :=
    Fallible.exists_of_isOk (by decide +kernel)
  have hnone : scan.messages.messages = [] := by
    have hempty : (scanCoinbase ⟨1,0,[],[]⟩).toOption.map (fun scan => scan.messages.messages) =
        some [] := by decide +kernel
    rw [hscan] at hempty
    exact Option.some.inj hempty
  have hsc : run.1.proposalIdToSidechain.get? proposal = some sidechain := by decide +kernel
  have hfree : run.1.toConsensusDbs.occupied proposal = false := by decide +kernel
  have hlen : run.2.length = 5 := by decide +kernel
  have hexact := fun n hn => proposal_pruning_exact
    (Thresholds.forNetwork_ordered .bitcoin .regtest) reach_run allZeros none ⟨1,0,[],[]⟩ scan
    ⟨run.1.toConsensusDbs,.empty,[],[]⟩ hscan (by rw [hnone]; rfl) n hn proposal sidechain
    (by dsimp only; exact hsc)
  dsimp only at hexact
  rw [hfree] at hexact
  have hkept : (handler.handleFailedSidechainProposals run.1.toConsensusDbs 8).proposals.contains
      proposal = false := by decide +kernel
  have hpruned : (handler.handleFailedSidechainProposals run.1.toConsensusDbs 9).proposals.contains
      proposal = true := by decide +kernel
  obtain ⟨k,hk,-,-,hact⟩ := (hexact 8 (by rw [hlen]; decide)).2 hkept (by decide)
  exact ⟨hkept,⟨k,hk,hact⟩,hpruned,(hexact 9 (by rw [hlen]; decide)).1 hpruned⟩

end Sample

end Bip300301Enforcer
