import Bip300301Enforcer.ProposalHistory
import Bip300301Enforcer.Runs

/-! How sidechains get into their slots and out of them. -/
namespace Bip300301Enforcer
open Lib Chain BlockHandler Diff

def Thresholds.Activates (th : Thresholds) (occupied : Bool) (votes age : ℕ) : Prop :=
  if occupied then th.withdrawalBundleInclusionThreshold.toNat < votes ∧
    age ≤ th.withdrawalBundleMaxAge.toNat
  else th.unusedSidechainSlotActivationThreshold.toNat < votes ∧
    age ≤ th.unusedSidechainSlotProposalMaxAge.toNat

theorem newSidechainActivated_iff (h : BlockHandler) (occupied : Bool) (votes : UInt16) (age : ℕ) :
    h.newSidechainActivated occupied votes age = true ↔
      h.thresholds.Activates occupied votes.toNat age := by
  cases occupied <;>
    simp [newSidechainActivated,Thresholds.activatesUnusedSlot,Thresholds.Activates,
      UInt16.lt_iff_toNat_lt]

section Activation

variable [Bitcoin] {h : BlockHandler} {V : Chain → Block → Prop} {dbs dbs' : Dbs} {c : Chain}
  {b : Block}

/-- A block acks a pending proposal that has enough votes with this ack. -/
structure TakesSlot (th : Thresholds) (t : ConsensusDbs) (c : Chain) (b : Block)
    (id : SidechainProposalId) (sc : Sidechain) : Prop where
  pending : t.proposalIdToSidechain.get? id = some sc
  acked : id.ack ∈ b.messages
  enough : th.Activates (t.activeSidechains.sidechain.contains id.sidechainNumber)
    (acksAbove id sc.status.proposalHeight (b::c)) (c.length-sc.status.proposalHeight)

theorem takesSlot_iff {t t₁ : ConsensusDbs} {id : SidechainProposalId} {sc : Sidechain}
    (hI : ProposalsRead h c.length t b.messages t₁) (hknown : EachProposal t (ProposalKnown h c)) :
    TakesSlot h.thresholds t c b id sc ↔ id.ack ∈ b.messages ∧
      t.proposalIdToSidechain.get? id = some sc ∧ h.ackActivates c.length t id sc = true := by
  have hiff : id.ack ∈ b.messages → t.proposalIdToSidechain.get? id = some sc →
      (h.ackActivates c.length t id sc = true ↔
        h.thresholds.Activates (t.activeSidechains.sidechain.contains id.sidechainNumber)
          (acksAbove id sc.status.proposalHeight (b::c)) (c.length-sc.status.proposalHeight)) := by
    intro hm hsc
    rw [ackActivates,newSidechainActivated_iff,ackVotes_eq hI (hknown id sc hsc) hsc hm]
    rfl
  constructor
  · rintro ⟨hsc,hm,henough⟩
    exact ⟨hm,hsc,(hiff hm hsc).mpr henough⟩
  · rintro ⟨hm,hsc,hact⟩
    exact ⟨hsc,hm,(hiff hm hsc).mp hact⟩

/-- A disconnect does nothing to the tables, or takes the last block back. -/
theorem Synced.disconnected {hash : BlockHash} {events : List Event} (hs : Synced h V False dbs c)
    (hd : disconnectBlock dbs hash = .ok (events,dbs')) :
    dbs' = dbs ∨ c = [] ∨ ∃ b c' t coinbase txs res, c = b::c' ∧ hash = b.blockHash ∧
      Grown h V False dbs.blockHashes.diff.get? c' t ∧
      Accepted h dbs.blockHashes.diff.get? c' t b coinbase txs res ∧
      ConsensusDbs.Like (Fresh V) dbs.toConsensusDbs res.dbs ∧
      ConsensusDbs.Like (Fresh V) dbs'.toConsensusDbs t := by
  rcases disconnectBlock_ok.mp hd with ⟨-,-,rfl⟩ | ⟨d,header,n,t',hdiff,htip,-,-,-,hundo,-,rfl⟩
  · exact .inl rfl
  cases c with
  | nil => exact .inr (.inl rfl)
  | cons b c =>
    obtain rfl := htip b.blockHash hs.tip
    have hgrown := hs.grown
    generalize hD : dbs.toConsensusDbs = T at hgrown
    cases hgrown with
    | base hb => exact absurd (hb.empty not_false).1 (by simp)
    | @connect _ t _ _ coinbase txs res hg hv ha hst hl =>
      obtain ⟨hw,hi⟩ := hg.wf
      obtain ⟨-,hu,-⟩ := ha.spec hw hv hi
      obtain ⟨t'',ht'',hl''⟩ := hu _ hl
      obtain rfl := Option.some.inj (hdiff.symm.trans hst)
      rw [hD] at hundo
      obtain rfl := Except.ok.inj (hundo.symm.trans ht'')
      exact .inr (.inr ⟨b,c,t,coinbase,txs,res,rfl,rfl,hg,ha,hl,hl''⟩)

omit [Bitcoin] in
theorem ConsensusDbs.Like.sidechain {P : Prop} {t t' : ConsensusDbs} (hl : ConsensusDbs.Like P t' t) :
    t'.activeSidechains.sidechain = t.activeSidechains.sidechain := by
  obtain ⟨⟨i,hi,-⟩,-⟩ := hl
  rw [hi]
  rfl

section Connect

variable {event : Event} {id : SidechainProposalId} {sc : Sidechain} (hs : Synced h V False dbs c)
  (hh : dbs.blockHashes.header.get? b.blockHash = some b.header)
  (hc : h.connectBlock dbs b = .ok (event,dbs'))
include hs hh hc

theorem Synced.proposalsRead : ∃ t₁, ProposalsRead h c.length dbs.toConsensusDbs b.messages t₁ ∧
    dbs'.activeSidechains.sidechain = t₁.activeSidechains.sidechain ∧
    ∀ id sc, dbs'.proposalIdToSidechain.get? id = some sc →
      t₁.proposalIdToSidechain.get? id = some sc := by
  obtain ⟨coinbase,txs,res,ha,-,hdbs,-⟩ := hs.connected hh hc
  obtain ⟨t₁,hI,hslots,hleft⟩ := ha.proposalsRead hs.grown.wf.1 hs.grown.proposals.1
  refine ⟨t₁,hI,by rw [← hslots,← hdbs],fun id sc hsc => (hleft id sc ?_).1⟩
  rw [← hdbs]
  exact hsc

theorem Synced.occupied (htake : TakesSlot h.thresholds dbs.toConsensusDbs c b id sc) :
    dbs'.activeSidechains.sidechain.get? id.sidechainNumber =
      some ((AckSidechainProposal.acked sc).withActivation (some c.length)) := by
  obtain ⟨t₁,hI,hslots,-⟩ := hs.proposalsRead hh hc
  obtain ⟨hm,hsc,hact⟩ := (takesSlot_iff hI hs.grown.proposals.1).mp htake
  rw [hslots]
  exact hI.occupant hm hsc hact

theorem Synced.occupant_changes_iff (s : SidechainNumber) :
    dbs'.activeSidechains.sidechain.get? s ≠ dbs.activeSidechains.sidechain.get? s ↔
      ∃ id sc, id.sidechainNumber = s ∧ TakesSlot h.thresholds dbs.toConsensusDbs c b id sc := by
  obtain ⟨t₁,hI,hslots,-⟩ := hs.proposalsRead hh hc
  constructor
  · intro hne
    rw [hslots] at hne
    obtain ⟨id,sc,hid,hm,hsc,hact⟩ := hI.taken hne
    exact ⟨id,sc,hid,(takesSlot_iff hI hs.grown.proposals.1).mpr ⟨hm,hsc,hact⟩⟩
  · rintro ⟨id,sc,rfl,htake⟩ heq
    rw [hs.occupied hh hc htake] at heq
    obtain ⟨above,b',below,hsplit,hact,-⟩ := hs.grown.proposals.2 _ _ heq.symm
    have hlt := length_lt_of_split hsplit
    have hlen : c.length = below.length := Option.some.inj hact
    omega

theorem Synced.proposalHeight_kept {sc' : Sidechain}
    (hsc : dbs.proposalIdToSidechain.get? id = some sc)
    (htake : ¬ TakesSlot h.thresholds dbs.toConsensusDbs c b id sc)
    (hsc' : dbs'.proposalIdToSidechain.get? id = some sc') :
    sc'.status.proposalHeight = sc.status.proposalHeight := by
  obtain ⟨t₁,hI,-,hleft⟩ := hs.proposalsRead hh hc
  have hkept := hI.kept id sc hsc (fun hc => htake
    ((takesSlot_iff hI hs.grown.proposals.1).mpr ⟨hc.1,hsc,hc.2⟩))
  rw [hleft id sc' hsc'] at hkept
  obtain rfl := Option.some.inj hkept
  split <;> rfl

theorem Synced.occupied_stays {s : SidechainNumber}
    (hact : dbs.activeSidechains.sidechain.contains s = true) :
    dbs'.activeSidechains.sidechain.contains s = true := by
  by_cases hne : dbs'.activeSidechains.sidechain.get? s = dbs.activeSidechains.sidechain.get? s
  · rw [FinMap.contains,hne]
    exact hact
  · obtain ⟨id,sc,rfl,htake⟩ := (hs.occupant_changes_iff hh hc s).mp hne
    rw [FinMap.contains,hs.occupied hh hc htake]
    rfl

end Connect

theorem Synced.vacated {hash : BlockHash} {events : List Event} {s : SidechainNumber}
    {sc : Sidechain} (hs : Synced h V False dbs c)
    (hd : disconnectBlock dbs hash = .ok (events,dbs'))
    (hsc : dbs.activeSidechains.sidechain.get? s = some sc)
    (hnone : dbs'.activeSidechains.sidechain.get? s = none) :
    ∃ b c', c = b::c' ∧ hash = b.blockHash ∧ sc.status.activationHeight = some c'.length ∧
      sc.proposal.computeId.ack ∈ b.messages := by
  rcases hs.disconnected hd with rfl | rfl | ⟨b,c',t,coinbase,txs,res,rfl,rfl,hg,ha,hl,hl'⟩
  · rw [hsc] at hnone
    cases hnone
  · obtain ⟨above,b,below,hsplit,-⟩ := hs.grown.proposals.2 s sc hsc
    simp at hsplit
  · obtain ⟨t₁,hI,hslots,-⟩ := ha.proposalsRead hg.wf.1 hg.proposals.1
    rw [hl.sidechain,hslots] at hsc
    rw [hl'.sidechain] at hnone
    rcases hI.activated hg.wf.1 hsc with hold | ⟨hact,hm⟩
    · rw [hnone] at hold
      cases hold
    · exact ⟨b,c',rfl,rfl,hact,hm⟩

/-- In every run, the votes of a pending proposal are the blocks above it that ack
it; the occupant of a slot changes in a block exactly when the block acks a
proposal of that slot that has enough votes with this ack and is not too old; and
only disconnecting its activation block leaves a slot without a sidechain. -/
theorem sidechain_activation (params : NetworkParams) (hr : Reach (.new params) V False dbs c) :
    (∀ id sc, dbs.proposalIdToSidechain.get? id = some sc →
      sc.status.voteCount.toNat = acksAbove id sc.status.proposalHeight c ∧
      ∃ above b below, c = above++b::below ∧ below.length = sc.status.proposalHeight ∧
        ∃ msg ∈ b.messages, msg.Proposes id) ∧
    (∀ b event dbs', dbs.blockHashes.header.get? b.blockHash = some b.header →
      (BlockHandler.new params).connectBlock dbs b = .ok (event,dbs') →
      (∀ s, dbs'.activeSidechains.sidechain.get? s ≠ dbs.activeSidechains.sidechain.get? s ↔
        ∃ id sc, id.sidechainNumber = s ∧
          TakesSlot params.thresholds dbs.toConsensusDbs c b id sc) ∧
      (∀ id sc, TakesSlot params.thresholds dbs.toConsensusDbs c b id sc →
        dbs'.activeSidechains.sidechain.get? id.sidechainNumber =
          some ((AckSidechainProposal.acked sc).withActivation (some c.length))) ∧
      (∀ id sc sc', dbs.proposalIdToSidechain.get? id = some sc →
        ¬ TakesSlot params.thresholds dbs.toConsensusDbs c b id sc →
        dbs'.proposalIdToSidechain.get? id = some sc' →
          sc'.status.proposalHeight = sc.status.proposalHeight) ∧
      ∀ s, dbs.activeSidechains.sidechain.contains s = true →
        dbs'.activeSidechains.sidechain.contains s = true) ∧
    (∀ hash events dbs', disconnectBlock dbs hash = .ok (events,dbs') →
      ∀ s sc, dbs.activeSidechains.sidechain.get? s = some sc →
        dbs'.activeSidechains.sidechain.get? s = none →
          ∃ b c', c = b::c' ∧ hash = b.blockHash ∧ sc.status.activationHeight = some c'.length ∧
            sc.proposal.computeId.ack ∈ b.messages) := by
  have hs := hr.synced
  refine ⟨fun id sc hsc => ?_,fun b event dbs' hh hc => ?_,fun hash events dbs' hd s sc => hs.vacated hd⟩
  · have hk := hs.grown.proposals.1 id sc hsc
    exact ⟨hk.votes,hk.proposed⟩
  · exact ⟨hs.occupant_changes_iff hh hc,fun id sc => hs.occupied hh hc,
      fun id sc sc' => hs.proposalHeight_kept hh hc,fun s => hs.occupied_stays hh hc⟩

end Activation

section Sample
open Sample

namespace ActivationSample

def handler : BlockHandler := .new (.new .bitcoin .regtest)

def description : List UInt8 := [1,2,3]

def blocks : List Block := blocksOn allZeros 0
  ([([],[]),([m1Script 0 description,m2Script 0 (sha256d description)],[])]++
    List.replicate 5 ([m2Script 0 (sha256d description)],[]))

def activating : Block :=
  blockOn ((blocks.getLast?.map Block.blockHash).getD allZeros) 7 [m2Script 0 (sha256d description)] []

def run : Dbs × Chain :=
  Call.runAll handler FreshTxids (Call.connectAll blocks++[.header activating.header 7])

theorem reach_run : Reach handler FreshTxids False run.1 run.2 :=
  Call.reach_runAll _ (by decide)

end ActivationSample

open ActivationSample

theorem sidechain_activation_sample :
    (∃ sc, run.1.proposalIdToSidechain.get? ⟨0,sha256d description⟩ = some sc ∧
      sc.status.voteCount.toNat = acksAbove ⟨0,sha256d description⟩ 1 run.2 ∧
      sc.status.voteCount = 5) ∧
    ∃ event dbs', handler.connectBlock run.1 activating = .ok (event,dbs') ∧
      dbs'.activeSidechains.sidechain.get? 0 ≠ run.1.activeSidechains.sidechain.get? 0 := by
  obtain ⟨hvotes,hconnect,-⟩ := sidechain_activation handler.params reach_run
  have hsc : run.1.proposalIdToSidechain.get? ⟨0,sha256d description⟩ =
      some ⟨⟨0,description⟩,⟨5,1,none⟩⟩ := by decide +kernel
  refine ⟨⟨_,hsc,(hvotes _ _ hsc).1,rfl⟩,?_⟩
  have hh : run.1.blockHashes.header.get? activating.blockHash = some activating.header := by
    decide +kernel
  obtain ⟨⟨event,dbs'⟩,hc⟩ : ∃ r, handler.connectBlock run.1 activating = .ok r :=
    Fallible.exists_of_isOk (by decide +kernel)
  obtain ⟨hchange,-⟩ := hconnect activating event dbs' hh hc
  refine ⟨event,dbs',hc,(hchange 0).mpr ⟨⟨0,sha256d description⟩,_,rfl,hsc,?_,?_⟩⟩
  · decide +kernel
  · have hempty : run.1.activeSidechains.sidechain.contains 0 = false := by decide +kernel
    have hacks : acksAbove ⟨0,sha256d description⟩ 1 (activating::run.2) = 6 := by decide +kernel
    have hlen : run.2.length = 7 := by decide +kernel
    simp only [Thresholds.Activates,hempty,hacks,hlen]
    decide

end Sample

end Bip300301Enforcer
