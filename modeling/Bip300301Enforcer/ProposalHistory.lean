import Bip300301Enforcer.BundleHistory

/-! Where pending sidechain proposals and active sidechains come from: the votes
of a proposal are the blocks above it that ack it, and a slot changes hands only
by an ack with enough votes. -/
namespace Bip300301Enforcer
open Lib Chain

def SidechainProposalId.ack (id : SidechainProposalId) : CoinbaseMessage :=
  .m2AckSidechain id.sidechainNumber id.descriptionHash

def CoinbaseMessage.Proposes [Bitcoin] (msg : CoinbaseMessage) (id : SidechainProposalId) : Prop :=
  ∃ description, msg = .m1ProposeSidechain id.sidechainNumber description ∧
    sha256d description = id.descriptionHash

def acksAbove [Bitcoin] (id : SidechainProposalId) (k : ℕ) : Chain → ℕ
  | [] => 0
  | b::c => acksAbove id k c+if k < c.length ∧ id.ack ∈ b.messages then 1 else 0

theorem mem_m2Slots {msgs : List CoinbaseMessage} {s : SidechainNumber} :
    s ∈ msgs.filterMap CoinbaseMessage.m2Slot ↔ ∃ dh, .m2AckSidechain s dh ∈ msgs := by
  rw [List.mem_filterMap]
  constructor
  · rintro ⟨msg,hm,hs⟩
    cases msg with
    | m2AckSidechain s' dh =>
      obtain rfl := Option.some.inj hs
      exact ⟨dh,hm⟩
    | _ => cases hs
  · rintro ⟨dh,hm⟩
    exact ⟨_,hm,rfl⟩

theorem SidechainProposalId.ack_inj {id id' : SidechainProposalId} (h : id.ack = id'.ack) :
    id = id' := by
  obtain ⟨h₁,h₂⟩ := CoinbaseMessage.m2AckSidechain.inj h
  cases id
  cases id'
  simp_all

section Acks

variable [Bitcoin] {id : SidechainProposalId} {k : ℕ} {c : Chain}

theorem acksAbove_le (hk : k < c.length) : acksAbove id k c+k+1 ≤ c.length := by
  induction c with
  | nil => cases hk
  | cons b c ih =>
    rw [List.length_cons] at hk ⊢
    rw [acksAbove]
    by_cases hc : k < c.length
    · have := ih hc
      split <;> omega
    · have hzero : acksAbove id k c = 0 := by
        clear ih hk
        induction c with
        | nil => rfl
        | cons b' c ih =>
          rw [List.length_cons] at hc
          rw [acksAbove,ih (by omega),if_neg (by omega)]
      rw [hzero,if_neg (by omega)]
      omega

theorem acksAbove_of_length_le (hk : c.length ≤ k+1) : acksAbove id k c = 0 := by
  induction c with
  | nil => rfl
  | cons b c ih =>
    rw [List.length_cons] at hk
    rw [acksAbove,ih (by omega),if_neg (by omega)]

end Acks

namespace BlockHandler
open Diff ActiveSidechainDbs

def ackActivates (h : BlockHandler) (n : ℕ) (t : ConsensusDbs) (id : SidechainProposalId)
    (sc : Sidechain) : Bool :=
  h.newSidechainActivated (t.activeSidechains.sidechain.get? id.sidechainNumber).isSome
    (sc.status.voteCount+1) (n-sc.status.proposalHeight)

def slotAfterAck (h : BlockHandler) (n : ℕ) (t : ConsensusDbs) (id : SidechainProposalId) :
    Option Sidechain :=
  match t.proposalIdToSidechain.get? id with
  | none => t.activeSidechains.sidechain.get? id.sidechainNumber
  | some sc =>
    if h.ackActivates n t id sc then some ((AckSidechainProposal.acked sc).withActivation (some n))
    else t.activeSidechains.sidechain.get? id.sidechainNumber

section Messages

variable [Bitcoin] {h : BlockHandler} {t t' t₀ : ConsensusDbs} {n : ℕ} {parent : BlockHash}
  {prevDiff : Option Diff.Block} {msg : CoinbaseMessage} {e : Option CoinbaseMessageEvent}
  {msgs : List CoinbaseMessage} {ds : List CoinbaseMsg}

/-- What a message does to the proposals and the slots: an `M1` adds a proposal, an
ack gives a vote or moves the proposal to its slot, and no other message matters. -/
inductive MovesProposals (h : BlockHandler) (n : ℕ) (t t' : ConsensusDbs) : CoinbaseMessage → Prop
  | proposed {s : SidechainNumber} {description : List UInt8}
      (new : t.proposalIdToSidechain.get? ⟨s,sha256d description⟩ = none)
      (proposals : t'.proposalIdToSidechain = t.proposalIdToSidechain.insert ⟨s,sha256d description⟩
        ⟨⟨s,description⟩,⟨0,n,none⟩⟩)
      (slots : t'.activeSidechains.sidechain = t.activeSidechains.sidechain) :
      MovesProposals h n t t' (.m1ProposeSidechain s description)
  | voted {id : SidechainProposalId} {sc : Sidechain}
      (pending : t.proposalIdToSidechain.get? id = some sc)
      (earlier : n ≠ sc.status.proposalHeight) (votes : sc.status.voteCount ≠ 0xFFFF)
      (low : h.ackActivates n t id sc = false)
      (proposals : t'.proposalIdToSidechain =
        t.proposalIdToSidechain.insert id (AckSidechainProposal.acked sc))
      (slots : t'.activeSidechains.sidechain = t.activeSidechains.sidechain) :
      MovesProposals h n t t' id.ack
  | activated {id : SidechainProposalId} {sc : Sidechain}
      (pending : t.proposalIdToSidechain.get? id = some sc)
      (earlier : n ≠ sc.status.proposalHeight) (votes : sc.status.voteCount ≠ 0xFFFF)
      (enough : h.ackActivates n t id sc = true)
      (proposals : t'.proposalIdToSidechain = t.proposalIdToSidechain.erase id)
      (slots : t'.activeSidechains.sidechain = t.activeSidechains.sidechain.insert
        id.sidechainNumber ((AckSidechainProposal.acked sc).withActivation (some n))) :
      MovesProposals h n t t' id.ack
  | other {msg : CoinbaseMessage} (noAck : msg.m2Slot = none)
      (proposals : t'.proposalIdToSidechain = t.proposalIdToSidechain)
      (slots : t'.activeSidechains.sidechain = t.activeSidechains.sidechain) :
      MovesProposals h n t t' msg

omit [Bitcoin] in
theorem ackEffect_noActivation {existing : Option Sidechain} {votes : UInt16} {age : ℕ} :
    h.ackEffect existing votes age = .noActivation ↔
      h.newSidechainActivated existing.isSome votes age = false := by
  unfold ackEffect
  split
  · rename_i hact
    rw [hact]
    cases existing <;> simp
  · rename_i hact
    simpa using hact

theorem movesProposals {d : CoinbaseMsg} (hh : Handled h t n parent prevDiff msg e (some d))
    (ha : d.apply t n = .ok t') : MovesProposals h n t t' msg := by
  generalize hd : some d = od at hh
  cases hh with
  | m1Known | m2Unknown | m2SameBlock | m7 => cases hd
  | @m1New s description new =>
    obtain rfl := Option.some.inj hd
    obtain rfl := Except.ok.inj ha
    exact .proposed new rfl rfl
  | @m2 s dh sc pending earlier votes =>
    obtain rfl := Option.some.inj hd
    obtain ⟨sc',hsc',-,rfl⟩ := AckSidechainProposal.apply_ok.mp ha
    obtain rfl := Option.some.inj (pending.symm.trans hsc')
    by_cases hact : h.ackActivates n t ⟨s,dh⟩ sc = true
    · rw [if_neg (fun he => by simp [ackActivates,ackEffect_noActivation.mp he] at hact)]
      change MovesProposals h n t _ (SidechainProposalId.ack ⟨s,dh⟩)
      exact .activated pending earlier votes hact rfl rfl
    · have hlow : h.ackActivates n t ⟨s,dh⟩ sc = false := by simpa using hact
      rw [if_pos (ackEffect_noActivation.mpr hlow)]
      change MovesProposals h n t _ (SidechainProposalId.ack ⟨s,dh⟩)
      exact .voted pending earlier votes hlow rfl rfl
  | @m3 s m6id p active pending new =>
    obtain rfl := Option.some.inj hd
    obtain ⟨a,hp,ha⟩ := Fallible.bind_ok.mp ha
    obtain ⟨p',q,-,-,rfl⟩ := withPendingWithdrawals_ok.mp hp
    rw [Fallible.pure_ok] at ha
    subst ha
    exact .other rfl rfl rfl
  | @m4 m4 ab votes =>
    split at hd
    · cases hd
    · obtain rfl := Option.some.inj hd
      obtain ⟨a,hp,ha⟩ := Fallible.bind_ok.mp ha
      obtain ⟨m,rfl,-,-⟩ := AckBundles.apply_ok hp
      rw [Fallible.pure_ok] at ha
      subst ha
      exact .other rfl rfl rfl

theorem ack_ignored {id : SidechainProposalId} {sc : Sidechain}
    (hh : Handled h t n parent prevDiff id.ack e none)
    (hp : t.proposalIdToSidechain.get? id = some sc) : n = sc.status.proposalHeight := by
  obtain ⟨s,dh⟩ := id
  generalize hm : SidechainProposalId.ack ⟨s,dh⟩ = msg at hh
  generalize hd : (none : Option CoinbaseMsg) = od at hh
  cases hh with
  | m2Unknown unknown =>
    obtain ⟨rfl,rfl⟩ := CoinbaseMessage.m2AckSidechain.inj hm
    rw [hp] at unknown
    cases unknown
  | m2SameBlock pending same =>
    obtain ⟨rfl,rfl⟩ := CoinbaseMessage.m2AckSidechain.inj hm
    obtain rfl := Option.some.inj (hp.symm.trans pending)
    exact same
  | m2 => cases hd
  | m1Known | m1New | m3 | m4 | m7 => cases hm

/-- The proposals and the slots within a coinbase, compared with the tables before it. -/
structure ProposalsRead (h : BlockHandler) (n : ℕ) (t₀ : ConsensusDbs) (msgs : List CoinbaseMessage)
    (t : ConsensusDbs) : Prop where
  proposals : ∀ id sc, t.proposalIdToSidechain.get? id = some sc →
    (sc.status = ⟨0,n,none⟩ ∧ ∃ msg ∈ msgs, msg.Proposes id) ∨
    ∃ sc₀, t₀.proposalIdToSidechain.get? id = some sc₀ ∧
      sc = if id.ack ∈ msgs then AckSidechainProposal.acked sc₀ else sc₀
  kept : ∀ id sc, t₀.proposalIdToSidechain.get? id = some sc →
    ¬ (id.ack ∈ msgs ∧ h.ackActivates n t₀ id sc = true) →
      t.proposalIdToSidechain.get? id =
        some (if id.ack ∈ msgs then AckSidechainProposal.acked sc else sc)
  sameSlot : ∀ s, s ∉ msgs.filterMap CoinbaseMessage.m2Slot →
    t.activeSidechains.sidechain.get? s = t₀.activeSidechains.sidechain.get? s
  acked : ∀ id, id.ack ∈ msgs →
    t.activeSidechains.sidechain.get? id.sidechainNumber = h.slotAfterAck n t₀ id ∧
      ∀ sc, t₀.proposalIdToSidechain.get? id = some sc → sc.status.voteCount ≠ 0xFFFF

namespace ProposalsRead

/-- A message that is no ack and leaves the tables alone, or an ack that changes nothing. -/
theorem weaken (hI : ProposalsRead h n t₀ msgs t)
    (hack : ∀ id, msg = id.ack → id.sidechainNumber ∉ msgs.filterMap CoinbaseMessage.m2Slot ∧
      t₀.proposalIdToSidechain.get? id = none) : ProposalsRead h n t₀ (msgs++[msg]) t := by
  have hiff : ∀ {id sc}, t₀.proposalIdToSidechain.get? id = some sc →
      (id.ack ∈ msgs++[msg] ↔ id.ack ∈ msgs) := by
    intro id sc hsc
    rw [List.mem_append,List.mem_singleton]
    refine ⟨fun hm => hm.elim (fun h => h) (fun he => ?_),.inl⟩
    have hnone := (hack id he.symm).2
    rw [hsc] at hnone
    cases hnone
  constructor
  · intro id sc hsc
    rcases hI.proposals id sc hsc with ⟨hst,m,hm,hp⟩ | ⟨sc₀,hsc₀,rfl⟩
    · exact .inl ⟨hst,m,List.mem_append_left _ hm,hp⟩
    · exact .inr ⟨sc₀,hsc₀,by simp only [hiff hsc₀]⟩
  · intro id sc hsc hs
    rw [hiff hsc] at hs
    simp only [hiff hsc]
    exact hI.kept id sc hsc hs
  · intro s hs
    rw [List.filterMap_append,List.mem_append,not_or] at hs
    exact hI.sameSlot s hs.1
  · intro id hid
    rw [List.mem_append,List.mem_singleton] at hid
    rcases hid with hid | hid
    · exact hI.acked id hid
    · obtain ⟨hnew,hnone⟩ := hack id hid.symm
      refine ⟨?_,fun sc hsc => ?_⟩
      · rw [hI.sameSlot _ hnew,slotAfterAck,hnone]
      · rw [hnone] at hsc
        cases hsc

/-- The first ack of a slot, for a proposal of an earlier block. -/
theorem ack {id : SidechainProposalId} {sc : Sidechain} (hI : ProposalsRead h n t₀ msgs t)
    (hnew : id.sidechainNumber ∉ msgs.filterMap CoinbaseMessage.m2Slot)
    (hsc : t.proposalIdToSidechain.get? id = some sc) (hearly : n ≠ sc.status.proposalHeight)
    (hmax : sc.status.voteCount ≠ 0xFFFF)
    (hothers : ∀ id', id ≠ id' →
      t'.proposalIdToSidechain.get? id' = t.proposalIdToSidechain.get? id')
    (hself : t'.proposalIdToSidechain.get? id =
      if h.ackActivates n t id sc then none else some (AckSidechainProposal.acked sc))
    (hslots : ∀ s, id.sidechainNumber ≠ s →
      t'.activeSidechains.sidechain.get? s = t.activeSidechains.sidechain.get? s)
    (hslot : t'.activeSidechains.sidechain.get? id.sidechainNumber =
      if h.ackActivates n t id sc then
        some ((AckSidechainProposal.acked sc).withActivation (some n))
      else t.activeSidechains.sidechain.get? id.sidechainNumber) :
    ProposalsRead h n t₀ (msgs++[id.ack]) t' := by
  have hnot : ∀ id' : SidechainProposalId, id'.ack ∈ msgs → id.sidechainNumber ≠ id'.sidechainNumber := by
    intro id' hid' he
    exact hnew (he ▸ mem_m2Slots.mpr ⟨_,hid'⟩)
  have hsc₀ : t₀.proposalIdToSidechain.get? id = some sc := by
    rcases hI.proposals id sc hsc with ⟨hst,-⟩ | ⟨sc₀,hsc₀,hsc'⟩
    · exact absurd (by rw [hst]) hearly
    · rw [if_neg (fun hm => hnot id hm rfl)] at hsc'
      rw [hsc',hsc₀]
  have hsplit : ∀ s, s ∉ (msgs++[id.ack]).filterMap CoinbaseMessage.m2Slot →
      s ∉ msgs.filterMap CoinbaseMessage.m2Slot ∧ id.sidechainNumber ≠ s := by
    intro s hs
    rw [List.filterMap_append,List.mem_append,not_or] at hs
    refine ⟨hs.1,fun he => hs.2 ?_⟩
    rw [← he]
    exact List.mem_singleton_self _
  have hsame : h.ackActivates n t id sc = h.ackActivates n t₀ id sc := by
    simp only [ackActivates,hI.sameSlot _ hnew]
  have hiff : ∀ id', id ≠ id' → (id'.ack ∈ msgs++[id.ack] ↔ id'.ack ∈ msgs) := by
    intro id' he
    rw [List.mem_append,List.mem_singleton]
    exact ⟨fun hm => hm.elim (fun h => h)
      (fun hid => absurd (SidechainProposalId.ack_inj hid).symm he),.inl⟩
  have hmem : id.ack ∈ msgs++[id.ack] := List.mem_append_right _ (List.mem_singleton_self _)
  constructor
  · intro id' sc' hsc'
    by_cases he : id = id'
    · subst he
      rw [hself] at hsc'
      split at hsc'
      · cases hsc'
      · exact .inr ⟨sc,hsc₀,by rw [if_pos hmem]; exact (Option.some.inj hsc').symm⟩
    · rw [hothers id' he] at hsc'
      simp only [hiff id' he]
      rcases hI.proposals id' sc' hsc' with ⟨hst,m,hm,hp⟩ | hold
      · exact .inl ⟨hst,m,List.mem_append_left _ hm,hp⟩
      · exact .inr hold
  · intro id' sc' hsc' hs
    by_cases he : id = id'
    · subst he
      obtain rfl := Option.some.inj (hsc₀.symm.trans hsc')
      rw [hself,hsame,if_neg (fun hact => hs ⟨hmem,hact⟩),if_pos hmem]
    · rw [hiff id' he] at hs
      simp only [hiff id' he]
      rw [hothers id' he]
      exact hI.kept id' sc' hsc' hs
  · intro s hs
    obtain ⟨hs₁,hs₂⟩ := hsplit s hs
    rw [hslots s hs₂]
    exact hI.sameSlot s hs₁
  · intro id' hid'
    rw [List.mem_append,List.mem_singleton] at hid'
    rcases hid' with hid' | hid'
    · rw [hslots _ (hnot id' hid')]
      exact hI.acked id' hid'
    · obtain rfl := SidechainProposalId.ack_inj hid'
      refine ⟨?_,fun sc' hsc' => ?_⟩
      · rw [hslot,hI.sameSlot _ hnew,hsame]
        simp only [slotAfterAck,hsc₀]
      · obtain rfl := Option.some.inj (hsc₀.symm.trans hsc')
        exact hmax

/-- A message keeps the comparison with the tables before the block. -/
theorem step (hI : ProposalsRead h n t₀ msgs t) (hm : MovesProposals h n t t' msg)
    (hnew : ∀ s, msg.m2Slot = some s → s ∉ msgs.filterMap CoinbaseMessage.m2Slot) :
    ProposalsRead h n t₀ (msgs++[msg]) t' := by
  cases hm with
  | @proposed s description new proposals slots =>
    have hI' : ProposalsRead h n t₀ (msgs++[.m1ProposeSidechain s description]) t :=
      hI.weaken (fun id he => by cases he)
    refine ⟨?_,?_,by rw [slots]; exact hI'.sameSlot,by rw [slots]; exact hI'.acked⟩
    · intro id sc hsc
      rw [proposals,FinMap.get?_insert] at hsc
      split at hsc
      · rename_i he
        obtain rfl := Option.some.inj hsc
        subst he
        exact .inl ⟨rfl,_,by simp,description,rfl,rfl⟩
      · exact hI'.proposals id sc hsc
    · intro id sc hsc hs
      have hold := hI'.kept id sc hsc hs
      rw [proposals,FinMap.get?_insert_ne,hold]
      intro he
      rw [he,hold] at new
      cases new
  | @voted id sc pending earlier votes low proposals slots =>
    refine hI.ack (hnew _ rfl) pending earlier votes ?_ ?_ ?_ ?_
    · intro id' he
      rw [proposals,FinMap.get?_insert_ne _ _ he]
    · rw [proposals,FinMap.get?_insert_self,low]
      rfl
    · intro s _
      rw [slots]
    · rw [low,slots]
      rfl
  | @activated id sc pending earlier votes enough proposals slots =>
    refine hI.ack (hnew _ rfl) pending earlier votes ?_ ?_ ?_ ?_
    · intro id' he
      rw [proposals,FinMap.get?_erase_ne _ he]
    · rw [proposals,FinMap.get?_erase_self,enough]
      rfl
    · intro s hs
      rw [slots,FinMap.get?_insert_ne _ _ hs]
    · rw [enough,slots,FinMap.get?_insert_self]
      rfl
  | other noAck proposals slots =>
    have hI' : ProposalsRead h n t₀ (msgs++[msg]) t := hI.weaken (fun id he => by
      rw [he] at noAck
      cases noAck)
    exact ⟨by rw [proposals]; exact hI'.proposals,by rw [proposals]; exact hI'.kept,
      by rw [slots]; exact hI'.sameSlot,by rw [slots]; exact hI'.acked⟩

end ProposalsRead

/-- The messages of a coinbase, compared with the tables before it. -/
theorem ran_proposals (hr : Ran h n parent prevDiff t₀ msgs t ds)
    (hlt : ∀ id sc, t₀.proposalIdToSidechain.get? id = some sc → sc.status.proposalHeight < n)
    (hone : (msgs.filterMap CoinbaseMessage.m2Slot).Nodup) : ProposalsRead h n t₀ msgs t := by
  have hfresh : ∀ {l : List CoinbaseMessage} {m : CoinbaseMessage},
      ((l++[m]).filterMap CoinbaseMessage.m2Slot).Nodup →
      (l.filterMap CoinbaseMessage.m2Slot).Nodup ∧
        ∀ s, m.m2Slot = some s → s ∉ l.filterMap CoinbaseMessage.m2Slot := by
    intro l m hn
    rw [List.filterMap_append,List.nodup_append] at hn
    refine ⟨hn.1,fun s hs hmem => hn.2.2 s hmem s ?_ rfl⟩
    rw [List.mem_filterMap]
    exact ⟨m,List.mem_singleton_self _,hs⟩
  induction hr with
  | start =>
    refine ⟨fun id sc hsc => .inr ⟨sc,hsc,by simp⟩,fun id sc hsc _ => by simpa using hsc,
      fun s _ => rfl,?_⟩
    intro id hid
    cases hid
  | @ignored msgs t ds msg e hr hh ih =>
    obtain ⟨hone',hnew⟩ := hfresh hone
    have hI := ih hone'
    refine hI.weaken (fun id he => ?_)
    subst he
    refine ⟨hnew _ rfl,?_⟩
    cases hsc : t₀.proposalIdToSidechain.get? id with
    | none => rfl
    | some sc =>
      have hnot : id.ack ∉ msgs := fun hm => hnew _ rfl (mem_m2Slots.mpr ⟨_,hm⟩)
      have hold := hI.kept id sc hsc (fun hc => hnot hc.1)
      rw [if_neg hnot] at hold
      have hsame := ack_ignored hh hold
      have := hlt id sc hsc
      omega
  | @applied msgs t t' ds msg e d hr hh ha ih =>
    obtain ⟨hone',hnew⟩ := hfresh hone
    exact (ih hone').step (movesProposals hh ha) hnew

end Messages
end BlockHandler

section Grown
open BlockHandler Diff

variable [Bitcoin] {h : BlockHandler} {V : Chain → Block → Prop} {stale : Prop}
  {D : BlockHash → Option Diff.Block} {c : Chain} {t : ConsensusDbs} {b : Block}
  {coinbase : Transaction} {txs : List Transaction} {res : ProcessedBlock}

structure ProposalKnown (h : BlockHandler) (c : Chain) (id : SidechainProposalId) (sc : Sidechain) :
    Prop where
  proposed : ∃ above b below, c = above++b::below ∧ below.length = sc.status.proposalHeight ∧
    ∃ msg ∈ b.messages, msg.Proposes id
  activated : h.params.bip300ActivationHeight ≤ sc.status.proposalHeight
  votes : sc.status.voteCount.toNat = acksAbove id sc.status.proposalHeight c

def ActivatedBy (c : Chain) (sc : Sidechain) : Prop :=
  ∃ above b below, c = above++b::below ∧ sc.status.activationHeight = some below.length ∧
    sc.proposal.computeId.ack ∈ b.messages

def EachProposal (t : ConsensusDbs) (P : SidechainProposalId → Sidechain → Prop) : Prop :=
  ∀ id sc, t.proposalIdToSidechain.get? id = some sc → P id sc

def EachSidechain (t : ConsensusDbs) (P : Sidechain → Prop) : Prop :=
  ∀ s sc, t.activeSidechains.sidechain.get? s = some sc → P sc

theorem ProposalKnown.lt {id : SidechainProposalId} {sc : Sidechain} (hk : ProposalKnown h c id sc) :
    sc.status.proposalHeight < c.length := by
  obtain ⟨above,b,below,hc,hlen,-⟩ := hk.proposed
  have := length_lt_of_split hc
  omega

/-- What an accepted block does to the proposals and the slots. The tables after the
messages of its coinbase are `t₁`, and the proposals that fail are removed from them. -/
theorem Accepted.proposalsRead (ha : Accepted h D c t b coinbase txs res) (hw : t.Wf)
    (hknown : EachProposal t (ProposalKnown h c)) :
    ∃ t₁, ProposalsRead h c.length t b.messages t₁ ∧
      res.dbs.activeSidechains.sidechain = t₁.activeSidechains.sidechain ∧
      EachProposal res.dbs (fun id sc => t₁.proposalIdToSidechain.get? id = some sc ∧
        h.proposalFailed t₁ c.length sc = false ∧ h.params.bip300ActivationHeight ≤ c.length) := by
  rcases processBlock_ok ha.processed with
    ⟨hlt,rfl⟩ | ⟨hle,scan,t₁,t₂,accepted,events,d,acc,-,hc,hf,rfl⟩
  · have hnone : ∀ id, t.proposalIdToSidechain.get? id = none := by
      intro id
      cases hsc : t.proposalIdToSidechain.get? id with
      | none => rfl
      | some sc =>
        have hk := hknown id sc hsc
        have h₁ := hk.activated
        have h₂ := hk.lt
        omega
    refine ⟨t,⟨?_,?_,fun s _ => rfl,?_⟩,rfl,?_⟩
    · intro id sc hsc
      rw [hnone] at hsc
      cases hsc
    · intro id sc hsc
      rw [hnone] at hsc
      cases hsc
    · intro id _
      refine ⟨by simp only [slotAfterAck,hnone],fun sc hsc => ?_⟩
      rw [hnone] at hsc
      cases hsc
    · intro id sc hsc
      rw [hnone] at hsc
      cases hsc
  · obtain ⟨hmsgs,hone⟩ := scanCoinbase_ok hc.scanned
    have hran := hc.ran
    rw [hmsgs,← ha.messages] at hran
    rw [← ha.messages] at hone
    have hslots : acc.dbs.sidechain = t₁.activeSidechains.sidechain := by
      obtain ⟨-,hs,-⟩ := foldlM_connectTx (P := False) (T := fun _ => False) rfl hf
        (hc.wf hw).2.tables (fun hp => hp.elim)
      exact hs.trans (hc.frame hw).2.1
    refine ⟨t₁,ran_proposals hran (fun id sc hsc => (hknown id sc hsc).lt) hone.m2,hslots,?_⟩
    intro id sc hsc
    have hsc' : t₂.proposalIdToSidechain.get? id = some sc := hsc
    rw [hc.proposals,FailedProposals.apply,FinMap.get?_eraseAll] at hsc'
    split at hsc'
    · cases hsc'
    · rename_i hkey
      refine ⟨hsc',?_,hle⟩
      rw [FinMap.mem_keys,hc.failedProposals,handleFailedSidechainProposals,FinMap.contains,
        FinMap.get?_filter,hsc'] at hkey
      simpa using hkey

theorem ackVotes_eq {t₁ : ConsensusDbs} {id : SidechainProposalId} {sc : Sidechain}
    (hI : ProposalsRead h c.length t b.messages t₁) (hk : ProposalKnown h c id sc)
    (hsc : t.proposalIdToSidechain.get? id = some sc) (hm : id.ack ∈ b.messages) :
    (sc.status.voteCount+1).toNat = acksAbove id sc.status.proposalHeight (b::c) := by
  rw [toNat_add_one ((hI.acked id hm).2 sc hsc),hk.votes,acksAbove,if_pos ⟨hk.lt,hm⟩]

theorem BlockHandler.ProposalsRead.known {t₁ : ConsensusDbs} {id : SidechainProposalId} {sc : Sidechain}
    (hI : ProposalsRead h c.length t b.messages t₁) (hknown : EachProposal t (ProposalKnown h c))
    (hsc : t₁.proposalIdToSidechain.get? id = some sc)
    (hle : h.params.bip300ActivationHeight ≤ c.length) : ProposalKnown h (b::c) id sc := by
  rcases hI.proposals id sc hsc with ⟨hst,msg,hmsg,hprop⟩ | ⟨sc₀,hsc₀,hsc'⟩
  · refine ⟨⟨[],b,c,rfl,by rw [hst],msg,hmsg,hprop⟩,by rw [hst]; exact hle,?_⟩
    rw [hst,acksAbove_of_length_le (by simp)]
    rfl
  · have hk := hknown id sc₀ hsc₀
    have hheight : sc.status.proposalHeight = sc₀.status.proposalHeight := by
      rw [hsc']
      split <;> rfl
    refine ⟨?_,by rw [hheight]; exact hk.activated,?_⟩
    · obtain ⟨above,b',below,rfl,hlen,hmsg⟩ := hk.proposed
      exact ⟨b::above,b',below,rfl,by rw [hheight]; exact hlen,hmsg⟩
    · rw [hheight]
      by_cases hm : id.ack ∈ b.messages
      · rw [if_pos hm] at hsc'
        rw [hsc']
        exact ackVotes_eq hI hk hsc₀ hm
      · rw [if_neg hm] at hsc'
        rw [hsc',hk.votes,acksAbove,if_neg (fun hc => hm hc.2),Nat.add_zero]

theorem BlockHandler.ProposalsRead.taken {t₁ : ConsensusDbs} {s : SidechainNumber}
    (hI : ProposalsRead h c.length t b.messages t₁)
    (hne : t₁.activeSidechains.sidechain.get? s ≠ t.activeSidechains.sidechain.get? s) :
    ∃ id sc, id.sidechainNumber = s ∧ id.ack ∈ b.messages ∧
      t.proposalIdToSidechain.get? id = some sc ∧ h.ackActivates c.length t id sc = true := by
  by_cases hs : s ∈ b.messages.filterMap CoinbaseMessage.m2Slot
  · obtain ⟨dh,hm⟩ := mem_m2Slots.mp hs
    have hslot := (hI.acked ⟨s,dh⟩ hm).1
    unfold slotAfterAck at hslot
    split at hslot
    · exact absurd hslot hne
    · rename_i sc hsc
      split at hslot
      · rename_i hact
        exact ⟨⟨s,dh⟩,sc,rfl,hm,hsc,hact⟩
      · exact absurd hslot hne
  · exact absurd (hI.sameSlot s hs) hne

theorem BlockHandler.ProposalsRead.occupant {t₁ : ConsensusDbs} {id : SidechainProposalId}
    {sc : Sidechain} (hI : ProposalsRead h c.length t b.messages t₁) (hm : id.ack ∈ b.messages)
    (hsc : t.proposalIdToSidechain.get? id = some sc)
    (hact : h.ackActivates c.length t id sc = true) :
    t₁.activeSidechains.sidechain.get? id.sidechainNumber =
      some ((AckSidechainProposal.acked sc).withActivation (some c.length)) := by
  rw [(hI.acked id hm).1]
  simp only [slotAfterAck,hsc,hact,if_true]

theorem BlockHandler.ProposalsRead.activated {t₁ : ConsensusDbs} {s : SidechainNumber}
    {sc : Sidechain} (hI : ProposalsRead h c.length t b.messages t₁) (hw : t.Wf)
    (hsc : t₁.activeSidechains.sidechain.get? s = some sc) :
    t.activeSidechains.sidechain.get? s = some sc ∨
      (sc.status.activationHeight = some c.length ∧ sc.proposal.computeId.ack ∈ b.messages) := by
  by_cases hold : t.activeSidechains.sidechain.get? s = some sc
  · exact .inl hold
  · obtain ⟨id,sc₀,rfl,hm,hsc₀,hact⟩ := hI.taken (s := s) (by rw [hsc]; exact Ne.symm hold)
    have hocc := hI.occupant hm hsc₀ hact
    obtain rfl := Option.some.inj (hsc.symm.trans hocc)
    have hid : ((AckSidechainProposal.acked sc₀).withActivation (some c.length)).proposal.computeId =
        id := (hw.proposals _ _ hsc₀).1
    exact .inr ⟨rfl,by rw [hid]; exact hm⟩

/-- Every pending proposal and every active sidechain has its history in the chain. -/
theorem Grown.proposals (hg : Grown h V False D c t) :
    EachProposal t (ProposalKnown h c) ∧ EachSidechain t (ActivatedBy c) := by
  induction hg with
  | @base c t hb =>
    constructor
    · intro id sc hsc
      rw [(hb.empty not_false).2] at hsc
      cases hsc
    · obtain ⟨i,hi,-⟩ := hb.bare.active
      intro s sc hsc
      rw [hi] at hsc
      simp [ActiveSidechainDbs.empty,ActiveSidechainDbs.setIndex] at hsc
  | @connect c t t' b coinbase txs res hg hv ha hs hl ih =>
    obtain ⟨⟨i,hi,-⟩,hp⟩ := hl
    obtain ⟨t₁,hI,hslots,hleft⟩ := ha.proposalsRead hg.wf.1 ih.1
    constructor
    · intro id sc hsc
      rw [hp] at hsc
      obtain ⟨hsc₁,-,hle⟩ := hleft id sc hsc
      exact hI.known ih.1 hsc₁ hle
    · intro s sc hsc
      have hside : t'.activeSidechains.sidechain = res.dbs.activeSidechains.sidechain := by
        rw [hi]
        rfl
      rw [hside,hslots] at hsc
      rcases hI.activated hg.wf.1 hsc with hold | ⟨hact,hm⟩
      · obtain ⟨above,b',below,rfl,hact,hm⟩ := ih.2 s sc hold
        exact ⟨b::above,b',below,rfl,hact,hm⟩
      · exact ⟨[],b,c,rfl,hact,hm⟩

end Grown
end Bip300301Enforcer
