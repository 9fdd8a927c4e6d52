import Bip300301Enforcer.ExtendCoinbase
import Bip300301Enforcer.VoteSafety

/-! The messages of a coinbase that the node produces: their order, that the bundle among
them is new, and that the votes fit the slots that are active when they are read. -/
namespace Bip300301Enforcer
open Lib Chain BlockHandler Diff
open CoinbaseBuilder (Built)
open Fallible (FailsOnly)

/-- Proposals and acks come first, then bundles and then votes on them. -/
def CoinbaseMessage.rank : CoinbaseMessage → ℕ
  | .m1ProposeSidechain _ _ | .m2AckSidechain _ _ => 0
  | .m3ProposeBundle _ _ => 1
  | .m4AckBundles _ => 2
  | .m7BmmAccept _ _ => 3

namespace BlockProducer

/-- The builder holds these messages, in the order of their ranks up to the given one. -/
structure Stage (outs : List TxOut) (b : CoinbaseBuilder) (msgs : List CoinbaseMessage) (k : ℕ) :
    Prop extends Built outs b msgs where
  sorted : msgs.Pairwise (fun a b => a.rank ≤ b.rank)
  below : ∀ msg ∈ msgs, msg.rank ≤ k

section Stages

variable {outs : List TxOut} {b b' : CoinbaseBuilder} {msgs : List CoinbaseMessage} {k : ℕ}

theorem Stage.push {msg : CoinbaseMessage} (hs : Stage outs b msgs k) (hk : k ≤ msg.rank)
    (hp : b.push msg = .ok b') : Stage outs b' (msgs++[msg]) msg.rank := by
  refine ⟨hs.toBuilt.push hp,?_,?_⟩
  · rw [List.pairwise_append]
    refine ⟨hs.sorted,List.pairwise_singleton _ _,?_⟩
    intro a ha m hm
    obtain rfl := List.mem_singleton.mp hm
    exact (hs.below a ha).trans hk
  · intro a ha
    rcases List.mem_append.mp ha with ha | ha
    · exact (hs.below a ha).trans hk
    · obtain rfl := List.mem_singleton.mp ha
      exact Nat.le_refl _

theorem Stage.mono {k' : ℕ} (hs : Stage outs b msgs k) (hk : k ≤ k') : Stage outs b msgs k' :=
  ⟨hs.toBuilt,hs.sorted,fun m hm => (hs.below m hm).trans hk⟩

theorem stage_proposeSomeSidechain {proposal : Option SidechainProposal} (hs : Stage outs b msgs 0)
    (hp : proposeSomeSidechain b proposal = .ok b') : ∃ msgs', Stage outs b' msgs' 0 := by
  cases proposal with
  | none =>
    obtain rfl := Except.ok.inj hp
    exact ⟨msgs,hs⟩
  | some proposal => exact ⟨_,hs.push (Nat.zero_le _) hp⟩

theorem stage_ackSidechains {acks : List SidechainAck} (hs : Stage outs b msgs 0)
    (hp : ackSidechains b acks = .ok b') : ∃ msgs', Stage outs b' msgs' 0 := by
  refine Fallible.foldlM_invariant (fun b => ∃ msgs', Stage outs b msgs' 0) hp ⟨msgs,hs⟩ ?_
  rintro ack b b' _ ⟨msgs,hs⟩ hstep
  split at hstep
  · obtain rfl := Except.ok.inj hstep
    exact ⟨msgs,hs⟩
  · exact ⟨_,hs.push (Nat.zero_le _) hstep⟩

theorem stage_proposeSomeBundle {selected : Option (SidechainNumber × M6id)}
    (hs : Stage outs b msgs 0) (hp : proposeSomeBundle b selected = .ok b') :
    ∃ msgs', Stage outs b' msgs' 1 ∧
      ∀ s m6id, .m3ProposeBundle s m6id ∈ msgs' → selected = some (s,m6id) := by
  have hold : ∀ s m6id, (.m3ProposeBundle s m6id : CoinbaseMessage) ∉ msgs := by
    intro s m6id hm
    have hrank : (1 : ℕ) ≤ 0 := hs.below _ hm
    omega
  unfold proposeSomeBundle at hp
  split at hp
  · obtain rfl := Except.ok.inj hp
    exact ⟨msgs,hs.mono (Nat.zero_le _),fun s m6id hm => absurd hm (hold s m6id)⟩
  · rename_i s m6id
    split at hp
    · obtain rfl := Except.ok.inj hp
      exact ⟨msgs,hs.mono (Nat.zero_le _),fun s m6id hm => absurd hm (hold s m6id)⟩
    · refine ⟨_,hs.push (Nat.zero_le _) hp,fun s' m6id' hm => ?_⟩
      rcases List.mem_append.mp hm with hm | hm
      · exact absurd hm (hold s' m6id')
      · obtain ⟨rfl,rfl⟩ := CoinbaseMessage.m3ProposeBundle.inj (List.mem_singleton.mp hm)
        rfl

theorem mem_minByKey {α : Type} {lt : α → α → Bool} {l : List α} {a : α}
    (h : minByKey lt l = some a) : a ∈ l := by
  cases l with
  | nil => cases h
  | cons x l =>
    obtain rfl := Option.some.inj h
    have hfold : ∀ (l : List α) (x : α),
        l.foldl (fun least b => if lt b least then b else least) x ∈ x::l := by
      intro l
      induction l with
      | nil => intro x; exact List.mem_singleton_self x
      | cons y l ih =>
        intro x
        rw [List.foldl_cons]
        rcases List.mem_cons.mp (ih (if lt y x then y else x)) with hm | hm
        · rw [hm]
          split
          · simp
          · simp
        · simp [hm]
    exact hfold l x

end Stages

section Extend

variable [Bitcoin] {params : NetworkParams} {dbs : Dbs} {stored : StoredPolicy}
  {ackPolicy : AckAllProposalsPolicy} {bundlePolicy : WithdrawalBundlePolicy} {tip : BlockHash}
  {outs outs' : List TxOut}
  {order : List (SidechainNumber × SidechainProposal) → List (SidechainNumber × SidechainProposal)}

/-- The bundles and the votes that the node chooses. -/
structure Chosen (dbs : Dbs) (stored : StoredPolicy) (bundlePolicy : WithdrawalBundlePolicy)
    (active : List Sidechain) (bundles : FinMap SidechainNumber BundleProposals)
    (votes : List WithdrawalBundleVote) : Prop where
  readActive : dbs.getActiveSidechains = .ok active
  readBundles : getBundleProposals dbs stored.bundleProposals (usedSlots active) = .ok bundles
  readVotes : selectBundleVotes dbs stored.bundleAcks bundles active bundlePolicy = .ok votes

/-- Below the activation height nothing is added. From there on the messages are added in
the order of their ranks. -/
theorem extendCoinbaseTxouts_ok (he : extendCoinbaseTxouts order params dbs stored ackPolicy
      bundlePolicy tip outs = .ok outs') :
    ∃ info, dbs.blockHashes.getHeaderInfo tip = .ok info ∧
      ((info.height+1 < params.bip300ActivationHeight ∧ outs' = outs) ∨
        params.bip300ActivationHeight ≤ info.height+1 ∧
        ∃ active bundles votes proposal b₀ b₁ b₂ b₃ b₄,
          Chosen dbs stored bundlePolicy active bundles votes ∧ CoinbaseBuilder.new outs = .ok b₀ ∧
          proposeSomeSidechain b₀ proposal = .ok b₁ ∧
          ackSidechains b₁ (selectSidechainAcks order stored.sidechainAcks
            (getActiveSidechainProposals dbs) (usedSlots active) ackPolicy) = .ok b₂ ∧
          proposeSomeBundle b₂ (selectBundleProposal bundles) = .ok b₃ ∧
          ackSomeBundles params.thresholds dbs b₃ (usedSlots active) (info.height+1) votes = .ok b₄ ∧
          b₄.build = .ok outs') := by
  obtain ⟨info,hinfo,he⟩ := Fallible.bind_ok.mp he
  refine ⟨info,(Fallible.mapError_ok _ _ _).mp hinfo,?_⟩
  simp only at he
  split at he
  · rename_i hlt
    exact .inl ⟨hlt,((Fallible.pure_ok _ _).mp he).symm⟩
  · rename_i hge
    obtain ⟨b₀,h₀,he⟩ := Fallible.bind_ok.mp he
    obtain ⟨b₁,h₁,he⟩ := Fallible.bind_ok.mp he
    obtain ⟨active,hactive,he⟩ := Fallible.bind_ok.mp he
    obtain ⟨b₂,h₂,he⟩ := Fallible.bind_ok.mp he
    obtain ⟨bundles,hbundles,he⟩ := Fallible.bind_ok.mp he
    obtain ⟨b₃,h₃,he⟩ := Fallible.bind_ok.mp he
    obtain ⟨votes,hvotes,he⟩ := Fallible.bind_ok.mp he
    obtain ⟨b₄,h₄,he⟩ := Fallible.bind_ok.mp he
    rw [Fallible.mapError_ok] at h₀ h₁ hactive h₂ hbundles h₃ hvotes h₄ he
    exact .inr ⟨Nat.not_lt.mp hge,active,bundles,votes,_,b₀,b₁,b₂,b₃,b₄,
      ⟨hactive,hbundles,hvotes⟩,h₀,h₁,h₂,h₃,h₄,he⟩

omit [Bitcoin] in
/-- The bundles of a slot are the stored ones, with what is pending there. -/
theorem getBundleProposals_get? {l : FinMap SidechainNumber (List (M6id × BlindedM6))}
    {bundles : FinMap SidechainNumber BundleProposals} {used : List SidechainNumber}
    {s : SidechainNumber} {m6ids : BundleProposals} (hb : getBundleProposals dbs l used = .ok bundles)
    (hs : bundles.get? s = some m6ids) :
    ∃ ms p, l.get? s = some ms ∧ dbs.activeSidechains.pendingM6ids.get? s = some p ∧
      m6ids = ms.map (fun m => (m.1,m.2,p.get? m.1)) := by
  refine Fallible.foldlM_invariant (fun res => ∀ s m6ids, res.get? s = some m6ids → ∃ ms p,
    l.get? s = some ms ∧ dbs.activeSidechains.pendingM6ids.get? s = some p ∧
      m6ids = ms.map (fun m => (m.1,m.2,p.get? m.1))) hb ?_ ?_ s m6ids hs
  · intro s m6ids hget
    simp at hget
  · rintro ⟨s,ms⟩ res res' hmem hI hstep
    simp only at hstep
    split at hstep
    · obtain rfl := Except.ok.inj hstep
      exact hI
    · obtain ⟨p,hp,hstep⟩ := Fallible.bind_ok.mp hstep
      rw [Database.get_ok] at hp
      rw [Fallible.pure_ok] at hstep
      subst hstep
      split
      · exact hI
      · intro s' m6ids hget
        rw [FinMap.get?_insert] at hget
        split at hget
        · rename_i he
          subst he
          obtain rfl := Option.some.inj hget
          exact ⟨ms,p,FinMap.mem_toList.mp hmem,hp,rfl⟩
        · exact hI s' m6ids hget

omit [Bitcoin] in
theorem selectBundleProposal_new {bundles : FinMap SidechainNumber BundleProposals}
    {used : List SidechainNumber} {s : SidechainNumber} {m6id : M6id}
    (hb : getBundleProposals dbs stored.bundleProposals used = .ok bundles)
    (hs : selectBundleProposal bundles = some (s,m6id)) :
    ∃ p, dbs.activeSidechains.pendingM6ids.get? s = some p ∧ m6id ∉ p.keys := by
  obtain ⟨⟨s',m6ids⟩,he,hm⟩ := List.mem_flatMap.mp (mem_minByKey hs)
  obtain ⟨m,hfilter,heq⟩ := List.mem_map.mp hm
  obtain ⟨rfl,rfl⟩ := Prod.mk.inj heq
  obtain ⟨l,p,-,hp,rfl⟩ := getBundleProposals_get? hb (FinMap.mem_toList.mp he)
  obtain ⟨hmem,hnone⟩ := List.mem_filter.mp hfilter
  obtain ⟨m',-,rfl⟩ := List.mem_map.mp hmem
  exact ⟨p,hp,OrderMap.get?_eq_none.mp (Option.isNone_iff_eq_none.mp hnone)⟩

/-- No ack of these messages activates a slot that is unused. -/
def NoSlotActivation (thresholds : Thresholds) (t : ConsensusDbs) (n : ℕ)
    (msgs : List CoinbaseMessage) : Prop :=
  ∀ id sc, id.ack ∈ msgs → t.activeSidechains.sidechain.contains id.sidechainNumber = false →
    t.proposalIdToSidechain.get? id = some sc → sc.status.voteCount ≠ 0xFFFF →
      thresholds.activatesUnusedSlot (sc.status.voteCount+1) (n-sc.status.proposalHeight) = false

/-- What the messages of a produced coinbase are. -/
structure Produced (thresholds : Thresholds) (t : ConsensusDbs) (n : ℕ)
    (votes : List WithdrawalBundleVote) (msgs : List CoinbaseMessage) : Prop where
  sorted : msgs.Pairwise (fun a b => a.rank ≤ b.rank)
  below : ∀ msg ∈ msgs, msg.rank ≤ 2
  bundle : ∀ s m6id, .m3ProposeBundle s m6id ∈ msgs →
    ∃ p, t.activeSidechains.pendingM6ids.get? s = some p ∧ m6id ∉ p.keys
  votes : ∀ m4, .m4AckBundles m4 ∈ msgs → m4 = .fromVotes votes ∧ NoSlotActivation thresholds t n msgs

theorem mem_usedSlots {active : List Sidechain} (hw : dbs.toConsensusDbs.Wf)
    (ha : dbs.getActiveSidechains = .ok active) {s : SidechainNumber} :
    s ∈ usedSlots active ↔ dbs.activeSidechains.sidechain.contains s = true := by
  rw [Dbs.getActiveSidechains_eq ha,usedSlots,List.mem_map,FinMap.contains_iff]
  constructor
  · rintro ⟨sc,hsc,rfl⟩
    obtain ⟨s,hs⟩ := FinMap.mem_values.mp hsc
    rw [(hw.sidechains s sc hs).1]
    exact ⟨sc,hs⟩
  · rintro ⟨sc,hs⟩
    exact ⟨sc,FinMap.mem_values.mpr ⟨s,hs⟩,(hw.sidechains s sc hs).1⟩

theorem noSlotActivation {b : CoinbaseBuilder} {msgs : List CoinbaseMessage} {n : ℕ}
    {active : List Sidechain} (hw : dbs.toConsensusDbs.Wf) (hb : Built outs b msgs)
    (ha : dbs.getActiveSidechains = .ok active)
    (hm : m2sMayActivateUnusedSlot params.thresholds dbs b.messages (usedSlots active) n = false) :
    NoSlotActivation params.thresholds dbs.toConsensusDbs n msgs := by
  intro id sc hack hslot hsc hmax
  have hunused : id.sidechainNumber ∉ usedSlots active := by
    rw [mem_usedSlots hw ha,hslot]
    simp
  have hslots : id.sidechainNumber ∈ b.messages.m2AckSlots :=
    FinMap.mem_keys.mpr (hb.indexed.m2.2 _ (mem_m2Slots.mpr ⟨_,hack⟩))
  have hacks : id ∈ unusedSlotAcks b.messages (usedSlots active) := by
    rw [← hb.indexed.messages] at hack
    obtain ⟨e,he,heq⟩ := List.mem_map.mp hack
    refine List.mem_filterMap.mpr ⟨e,he,?_⟩
    simp only [heq,SidechainProposalId.ack,hunused,if_false]
  unfold m2sMayActivateUnusedSlot at hm
  rw [if_neg (by simpa using List.ne_nil_of_mem hslots)] at hm
  simp only at hm
  rw [if_neg (by simpa using List.ne_nil_of_mem hacks),List.any_eq_false] at hm
  have hno := hm (id,sc) (FinMap.mem_toList.mpr hsc)
  simpa [hacks,hmax] using hno

/-- The messages that the node adds at a height where they count. -/
theorem produced (hpush : ∀ data : List UInt8, data.length < 2^32 →
      instructions (newOpReturn data) = [some (.op opReturn),some (.pushBytes data)])
    (hw : dbs.toConsensusDbs.Wf)
    (hnone : ∀ out ∈ outs, CoinbaseMessage.parse out.scriptPubkey = none)
    (he : extendCoinbaseTxouts order params dbs stored ackPolicy bundlePolicy tip outs = .ok outs')
    {info : HeaderInfo} (hinfo : dbs.blockHashes.getHeaderInfo tip = .ok info) :
    (info.height+1 < params.bip300ActivationHeight ∧ outs' = outs) ∨
      params.bip300ActivationHeight ≤ info.height+1 ∧
      ∃ active bundles votes b msgs exts, Chosen dbs stored bundlePolicy active bundles votes ∧
        Built outs b msgs ∧ outs' = outs++exts ∧ List.Forall₂ CoinbaseBuilder.Reads exts msgs ∧
        Produced params.thresholds dbs.toConsensusDbs (info.height+1) votes msgs := by
  obtain ⟨info',hinfo',hcases⟩ := extendCoinbaseTxouts_ok he
  obtain rfl := Except.ok.inj (hinfo.symm.trans hinfo')
  refine hcases.imp_right (And.imp_right ?_)
  rintro ⟨active,bundles,votes,proposal,b₀,b₁,b₂,b₃,b₄,hc,h₀,h₁,h₂,h₃,h₄,hbuild⟩
  have hs₀ : Stage outs b₀ [] 0 :=
    ⟨CoinbaseBuilder.built_new hnone h₀,List.Pairwise.nil,fun m hm => absurd hm (by simp)⟩
  obtain ⟨msgs₁,hs₁⟩ := stage_proposeSomeSidechain hs₀ h₁
  obtain ⟨msgs₂,hs₂⟩ := stage_ackSidechains hs₁ h₂
  obtain ⟨msgs₃,hs₃,hm3⟩ := stage_proposeSomeBundle hs₂ h₃
  have hbundle : ∀ s m6id, .m3ProposeBundle s m6id ∈ msgs₃ →
      ∃ p, dbs.activeSidechains.pendingM6ids.get? s = some p ∧ m6id ∉ p.keys :=
    fun s m6id hm => selectBundleProposal_new hc.readBundles (hm3 s m6id hm)
  have hnoM4 : ∀ m4, (.m4AckBundles m4 : CoinbaseMessage) ∉ msgs₃ := by
    intro m4 hm
    have hrank : (2 : ℕ) ≤ 1 := hs₃.below _ hm
    omega
  unfold ackSomeBundles at h₄
  split at h₄
  · rename_i hvotes
    rw [Bool.and_eq_true,Bool.not_eq_true'] at hvotes
    have hs₄ : Stage outs b₄ (msgs₃++[.m4AckBundles (.fromVotes votes)]) 2 :=
      hs₃.push (show (1 : ℕ) ≤ 2 by decide) h₄
    have hno := noSlotActivation hw hs₃.toBuilt hc.readActive hvotes.2
    obtain ⟨exts,hexts,hreads⟩ := hs₄.build_ok hpush hbuild
    refine ⟨active,bundles,votes,b₄,_,exts,hc,hs₄.toBuilt,hexts,hreads,hs₄.sorted,hs₄.below,?_,?_⟩
    · intro s m6id hm
      exact hbundle s m6id ((List.mem_append.mp hm).resolve_right (by simp))
    · intro m4 hm
      refine ⟨?_,?_⟩
      · rcases List.mem_append.mp hm with hm | hm
        · exact absurd hm (hnoM4 m4)
        · exact CoinbaseMessage.m4AckBundles.inj (List.mem_singleton.mp hm)
      · intro id sc hack
        exact hno id sc ((List.mem_append.mp hack).resolve_right (by simp [SidechainProposalId.ack]))
  · obtain rfl := Except.ok.inj h₄
    obtain ⟨exts,hexts,hreads⟩ := hs₃.build_ok hpush hbuild
    exact ⟨active,bundles,votes,b₃,msgs₃,exts,hc,hs₃.toBuilt,hexts,hreads,hs₃.sorted,
      fun m hm => (hs₃.below m hm).trans (by decide),hbundle,fun m4 hm => absurd hm (hnoM4 m4)⟩

end Extend

end BlockProducer

end Bip300301Enforcer
