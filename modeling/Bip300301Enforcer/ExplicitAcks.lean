import Bip300301Enforcer.SidechainAcks

/-! Which proposals a produced coinbase acks, and when these are the ones that the operator
asked for. -/
namespace Bip300301Enforcer
open Lib

namespace BlockProducer

section Acks

def pendingIn (dbs : Dbs) (s : SidechainNumber) : List SidechainProposal :=
  (dbs.proposalIdToSidechain.toList.map (fun e => e.2.proposal)).filter
    (fun proposal => proposal.sidechainNumber = s)

theorem foldl_insert_get? (l : List (SidechainProposalId × Sidechain)) (s : SidechainNumber) :
    (l.foldl (fun (m : FinMap SidechainNumber SidechainProposal) e =>
        m.insert e.2.proposal.sidechainNumber e.2.proposal) .empty).get? s =
      ((l.map (fun e => e.2.proposal)).filter (fun p => p.sidechainNumber = s)).getLast? := by
  induction l using List.reverseRecOn with
  | nil => simp
  | append_singleton l e ih =>
    rw [List.foldl_append,List.map_append,List.filter_append]
    simp only [List.foldl_cons,List.foldl_nil,FinMap.get?_insert,List.map_cons,List.map_nil]
    split
    · rename_i hs
      simp [hs]
    · rename_i hs
      simp [hs,ih]

theorem getActiveSidechainProposals_get? (dbs : Dbs) (s : SidechainNumber) :
    (getActiveSidechainProposals dbs).get? s = (pendingIn dbs s).getLast? :=
  foldl_insert_get? dbs.proposalIdToSidechain.toList s

theorem slot_of_mem_pendingIn {dbs : Dbs} {s : SidechainNumber} {p : SidechainProposal}
    (hp : p ∈ pendingIn dbs s) : p.sidechainNumber = s :=
  of_decide_eq_true (List.mem_filter.mp hp).2

variable [Bitcoin]

def ackFor (p : SidechainProposal) : SidechainAck := ⟨p.sidechainNumber,sha256d p.description⟩

variable {dbs : Dbs} {rows rows' : List SidechainAck} {policy : AckAllProposalsPolicy}
  {used : List SidechainNumber} {s : SidechainNumber} {ack : SidechainAck}

theorem validateSidechainAck_iff :
    validateSidechainAck ack (getActiveSidechainProposals dbs) = true ↔
      ∃ p, (pendingIn dbs ack.sidechainNumber).getLast? = some p ∧ ack = ackFor p := by
  rw [validateSidechainAck,getActiveSidechainProposals_get?]
  cases hlast : (pendingIn dbs ack.sidechainNumber).getLast? with
  | none => simp
  | some p =>
    have hslot := slot_of_mem_pendingIn (List.mem_of_getLast? hlast)
    obtain ⟨s,dh⟩ := ack
    simp only at hslot
    simp [ackFor,hslot,eq_comm]

/-- Every visited slot is acked that the policy acks, if all acks of a slot are the same. -/
theorem mem_foldl_addAutoAck (good : SidechainNumber → DescriptionHash)
    {l : List (SidechainNumber × SidechainProposal)} {acks : List SidechainAck}
    (hacks : ∀ ack ∈ acks, ack.descriptionHash = good ack.sidechainNumber)
    (hl : ∀ e ∈ l, sha256d e.2.description = good e.1) :
    ack ∈ l.foldl (addAutoAck used policy) acks ↔
      ack ∈ acks ∨ ∃ e ∈ l, policy.autoAcks (e.1 ∈ used) = true ∧ ack = ⟨e.1,good e.1⟩ := by
  induction l generalizing acks with
  | nil => simp
  | cons e l ih =>
    have he := hl e (List.mem_cons_self ..)
    have hrest := fun e' he' => hl e' (List.mem_cons_of_mem _ he')
    have hstep : (∀ ack ∈ addAutoAck used policy acks e, ack.descriptionHash = good ack.sidechainNumber) ∧
        ∀ ack, ack ∈ addAutoAck used policy acks e ↔
          ack ∈ acks ∨ policy.autoAcks (e.1 ∈ used) = true ∧ ack = ⟨e.1,good e.1⟩ := by
      rw [addAutoAck,he]
      split
      · rename_i hno
        simp only [Bool.not_eq_true'] at hno
        exact ⟨hacks,fun a => by simp [hno]⟩
      · rename_i hauto
        simp only [Bool.not_eq_true',Bool.not_eq_false] at hauto
        split
        · rename_i hany
          obtain ⟨a',ha',hslot⟩ := List.any_eq_true.mp hany
          have hthere : (⟨e.1,good e.1⟩ : SidechainAck) ∈ acks := by
            have hgood := hacks a' ha'
            obtain ⟨s',dh⟩ := a'
            obtain rfl := of_decide_eq_true hslot
            rwa [← hgood]
          refine ⟨hacks,fun a => ⟨.inl,?_⟩⟩
          rintro (ha | ⟨-,rfl⟩)
          · exact ha
          · exact hthere
        · refine ⟨fun a ha => ?_,fun a => by simp [hauto]⟩
          rcases List.mem_append.mp ha with ha | ha
          · exact hacks a ha
          · rw [List.mem_singleton.mp ha]
    rw [List.foldl_cons,ih hstep.1 hrest,hstep.2]
    simp only [List.mem_cons,exists_eq_or_imp,or_assoc]

/-- The acks that are chosen are for the last proposals of their slots, and are stored or come
from the policy. -/
theorem mem_selectSidechainAcks
    {order : List (SidechainNumber × SidechainProposal) → List (SidechainNumber × SidechainProposal)}
    (horder : ∀ l, (order l).Perm l) :
    ack ∈ selectSidechainAcks order rows (getActiveSidechainProposals dbs) used policy ↔
      ∃ p, (pendingIn dbs ack.sidechainNumber).getLast? = some p ∧ ack = ackFor p ∧
        (ack ∈ rows ∨ policy.autoAcks (ack.sidechainNumber ∈ used) = true) := by
  let good (s : SidechainNumber) : DescriptionHash :=
    ((pendingIn dbs s).getLast?.map (fun p => sha256d p.description)).getD 0
  have hgood : ∀ {s p}, (pendingIn dbs s).getLast? = some p → good s = sha256d p.description := by
    intro s p hp
    simp only [good,hp,Option.map_some,Option.getD_some]
  have hlast : ∀ {e}, e ∈ order (getActiveSidechainProposals dbs).toList ↔
      (pendingIn dbs e.1).getLast? = some e.2 := by
    rintro ⟨s,p⟩
    rw [(horder _).mem_iff,FinMap.mem_toList,getActiveSidechainProposals_get?]
  rw [selectSidechainAcks,mem_foldl_addAutoAck good]
  · constructor
    · rintro (hstored | ⟨⟨s,p⟩,he,hauto,rfl⟩)
      · obtain ⟨hmem,hvalid⟩ := List.mem_filter.mp hstored
        obtain ⟨p,hp,hack⟩ := validateSidechainAck_iff.mp hvalid
        exact ⟨p,hp,hack,.inl hmem⟩
      · have hp := hlast.mp he
        refine ⟨p,hp,?_,.inr hauto⟩
        rw [ackFor,slot_of_mem_pendingIn (List.mem_of_getLast? hp)]
        simp only [hgood hp]
    · rintro ⟨p,hp,hack,hstored | hauto⟩
      · exact .inl (List.mem_filter.mpr ⟨hstored,validateSidechainAck_iff.mpr ⟨p,hp,hack⟩⟩)
      · refine .inr ⟨(ack.sidechainNumber,p),hlast.mpr hp,hauto,?_⟩
        simp only [hgood hp]
        rw [hack]
        rfl
  · intro ack hack
    obtain ⟨p,hp,hack⟩ := validateSidechainAck_iff.mp (List.mem_filter.mp hack).2
    rw [hgood hp,hack]
    rfl
  · intro e he
    exact (hgood (hlast.mp he)).symm

/-- A stored ack names this pending proposal of the slot. -/
def Asked (dbs : Dbs) (rows : List SidechainAck) (s : SidechainNumber) (p : SidechainProposal) :
    Prop :=
  p ∈ pendingIn dbs s ∧ ackFor p ∈ rows

/-- The acks follow the stored ones, and the policy where there is none. -/
structure AcksCast (dbs : Dbs) (rows : List SidechainAck) (policy : AckAllProposalsPolicy)
    (used : List SidechainNumber) (m2s : List SidechainAck) : Prop where
  once : (m2s.map SidechainAck.sidechainNumber).Nodup
  asked : ∀ s, (∃ p, Asked dbs rows s p) → ∃ p, Asked dbs rows s p ∧ ackFor p ∈ m2s
  auto : ∀ s, (¬ ∃ p, Asked dbs rows s p) →
    ((∃ ack ∈ m2s, ack.sidechainNumber = s) ↔
      policy.autoAcks (s ∈ used) = true ∧ pendingIn dbs s ≠ [])
  pending : ∀ ack ∈ m2s, ∃ p ∈ pendingIn dbs ack.sidechainNumber, ack = ackFor p

/-- In every slot for which a stored ack asks, one asks for the proposal with the greatest id. -/
def LastAsked (dbs : Dbs) (rows : List SidechainAck) : Prop :=
  ∀ s, (∃ p, Asked dbs rows s p) → ∃ last, (pendingIn dbs s).getLast? = some last ∧ ackFor last ∈ rows

structure LastAcked (dbs : Dbs) (rows : List SidechainAck) (policy : AckAllProposalsPolicy)
    (used : List SidechainNumber) (m2s : List SidechainAck) : Prop where
  once : (m2s.map SidechainAck.sidechainNumber).Nodup
  mem : ∀ ack, ack ∈ m2s ↔ ∃ last, (pendingIn dbs ack.sidechainNumber).getLast? = some last ∧
    ack = ackFor last ∧ (ack ∈ rows ∨ policy.autoAcks (ack.sidechainNumber ∈ used) = true)

variable {m2s : List SidechainAck}

theorem LastAcked.mem_of_last (h : LastAcked dbs rows policy used m2s) {last : SidechainProposal}
    (hlast : (pendingIn dbs s).getLast? = some last)
    (hwhy : ackFor last ∈ rows ∨ policy.autoAcks (s ∈ used) = true) : ackFor last ∈ m2s := by
  obtain rfl : last.sidechainNumber = s := slot_of_mem_pendingIn (List.mem_of_getLast? hlast)
  exact (h.mem (ackFor last)).mpr ⟨last,hlast,rfl,hwhy⟩

theorem LastAcked.cast_iff (h : LastAcked dbs rows policy used m2s) :
    AcksCast dbs rows policy used m2s ↔ LastAsked dbs rows := by
  constructor
  · intro hcast s hs
    obtain ⟨p,⟨hp,hrow⟩,hm⟩ := hcast.asked s hs
    obtain ⟨last,hlast,hack,-⟩ := (h.mem _).mp hm
    have hslot : (ackFor p).sidechainNumber = s := slot_of_mem_pendingIn hp
    rw [hslot] at hlast
    exact ⟨last,hlast,hack ▸ hrow⟩
  · intro hasked
    refine ⟨h.once,fun s hs => ?_,fun s hno => ⟨?_,?_⟩,fun ack hack => ?_⟩
    · obtain ⟨last,hlast,hrow⟩ := hasked s hs
      exact ⟨last,⟨List.mem_of_getLast? hlast,hrow⟩,h.mem_of_last hlast (.inl hrow)⟩
    · rintro ⟨ack,hack,rfl⟩
      obtain ⟨last,hlast,rfl,hrow | hauto⟩ := (h.mem ack).mp hack
      · exact absurd ⟨last,List.mem_of_getLast? hlast,hrow⟩ hno
      · exact ⟨hauto,List.ne_nil_of_mem (List.mem_of_getLast? hlast)⟩
    · rintro ⟨hauto,hne⟩
      have hlast := List.getLast?_eq_some_getLast hne
      exact ⟨_,h.mem_of_last hlast (.inr hauto),slot_of_mem_pendingIn (List.mem_of_getLast? hlast)⟩
    · obtain ⟨last,hlast,heq,-⟩ := (h.mem ack).mp hack
      exact ⟨last,List.mem_of_getLast? hlast,heq⟩

section Produced

variable {params : NetworkParams} {stored : StoredPolicy} {bundlePolicy : WithdrawalBundlePolicy}
  {tip : BlockHash} {outs outs' : List TxOut} {info : HeaderInfo}
  {order order' : List (SidechainNumber × SidechainProposal) → List (SidechainNumber × SidechainProposal)}

/-- The acks that are added to a coinbase without acks. -/
theorem extendCoinbaseTxouts_lastAcked (hpush : ∀ data : List UInt8, data.length < 2^32 →
      instructions (newOpReturn data) = [some (.op opReturn),some (.pushBytes data)])
    (horder : ∀ l, (order l).Perm l) (hinfo : dbs.blockHashes.getHeaderInfo tip = .ok info)
    (habove : params.bip300ActivationHeight ≤ info.height+1) (hnone : m2sOf outs = [])
    (he : extendCoinbaseTxouts order params dbs stored policy bundlePolicy tip outs = .ok outs') :
    ∃ active, dbs.getActiveSidechains = .ok active ∧
      LastAcked dbs stored.sidechainAcks policy (usedSlots active) (m2sOf outs') := by
  obtain ⟨info',hinfo',hcases⟩ := extendCoinbaseTxouts_ok he
  obtain rfl := Except.ok.inj (hinfo.symm.trans hinfo')
  obtain ⟨-,active,bundles,votes,proposal,b₀,b₁,b₂,b₃,b₄,hc,h₀,h₁,h₂,h₃,h₄,hbuild⟩ :=
    hcases.resolve_left (fun hlt => absurd hlt.1 (Nat.not_lt.mpr habove))
  obtain ⟨hold,htxouts⟩ := CoinbaseBuilder.old_new h₀
  have hs₀ : CoinbaseBuilder.Acks b₀ b₀ [] := by
    have hm := CoinbaseBuilder.messages_of_new h₀
    exact ⟨⟨[],CoinbaseBuilder.added_nil b₀⟩,CoinbaseMessages.acksIndexed_new hm,
      (CoinbaseMessages.m2s_new hm).trans hnone⟩
  obtain ⟨acks,hs₂,hnodup,hsub,hcover⟩ := acks_ackSidechains hold
    (acks_proposeSomeSidechain hold hs₀ h₁) h₂
  have hs₄ := acks_ackSomeBundles hold (acks_proposeSomeBundle hold hs₂ h₃) h₄
  have hm2s : m2sOf outs' = acks := by
    obtain ⟨msgs,hadd⟩ := hs₄.added
    obtain ⟨exts,rfl,hread⟩ := hadd.build_ok hpush hold hbuild
    rw [htxouts,← CoinbaseMessages.m2s_new (hadd.reads h₀ (hread.imp (fun _ _ h => h.1))),hs₄.acks]
  refine ⟨active,hc.readActive,by rwa [hm2s],fun ack => ?_⟩
  rw [hm2s,← mem_selectSidechainAcks horder]
  refine ⟨fun hack => hsub hack,fun hack => ?_⟩
  obtain ⟨ack',hack',hslot⟩ := List.mem_map.mp (hcover ack hack)
  obtain ⟨last,hlast,heq,-⟩ := (mem_selectSidechainAcks horder).mp hack
  obtain ⟨last',hlast',heq',-⟩ := (mem_selectSidechainAcks horder).mp (hsub hack')
  rw [hslot] at hlast'
  obtain rfl := Option.some.inj (hlast.symm.trans hlast')
  rwa [heq,← heq']

/-- Stored acks are cast exactly if in every slot one of them is for the pending proposal with the
greatest id. In any case the acks do not depend on the order in which proposals are visited or
acks are stored. -/
theorem extendCoinbaseTxouts_acks_iff (hpush : ∀ data : List UInt8, data.length < 2^32 →
      instructions (newOpReturn data) = [some (.op opReturn),some (.pushBytes data)])
    (horder : ∀ l, (order l).Perm l) (hinfo : dbs.blockHashes.getHeaderInfo tip = .ok info)
    (habove : params.bip300ActivationHeight ≤ info.height+1) (hnone : m2sOf outs = [])
    (he : extendCoinbaseTxouts order params dbs stored policy bundlePolicy tip outs = .ok outs') :
    ∃ active, dbs.getActiveSidechains = .ok active ∧
      (AcksCast dbs stored.sidechainAcks policy (usedSlots active) (m2sOf outs') ↔
        LastAsked dbs stored.sidechainAcks) ∧
      ∀ order' rows' outs'', (∀ l, (order' l).Perm l) → rows'.Perm stored.sidechainAcks →
        extendCoinbaseTxouts order' params dbs { stored with sidechainAcks := rows' } policy
          bundlePolicy tip outs = .ok outs'' → (m2sOf outs'').Perm (m2sOf outs') := by
  obtain ⟨active,hactive,hacked⟩ := extendCoinbaseTxouts_lastAcked hpush horder hinfo habove hnone he
  refine ⟨active,hactive,hacked.cast_iff,fun order' rows' outs'' horder' hrows he' => ?_⟩
  obtain ⟨active',hactive',hacked'⟩ :=
    extendCoinbaseTxouts_lastAcked hpush horder' hinfo habove hnone he'
  obtain rfl := Except.ok.inj (hactive.symm.trans hactive')
  refine (List.perm_ext_iff_of_nodup (List.Nodup.of_map _ hacked'.once)
    (List.Nodup.of_map _ hacked.once)).mpr (fun ack => ?_)
  rw [hacked'.mem,hacked.mem,hrows.mem_iff]

end Produced

end Acks

section Sample

open Sample

namespace AcksSample

def handler : BlockHandler := .new (.new .bitcoin .regtest)

def contents : List (List Script × List Transaction) :=
  [([],[]),([m1Script 1 [4]],[]),([m1Script 1 [5]],[])]

def run : Dbs × Chain :=
  Call.runAll handler (fun _ _ => True) (Call.connectAll (blocksOn allZeros 0 contents))

theorem reach_run : Reach handler (fun _ _ => True) False run.1 run.2 :=
  Call.reach_runAll _ (by decide)

def tip : BlockHash := run.1.currentChainTip.getD allZeros

def stored (description : List UInt8) : StoredPolicy := ⟨[],[⟨1,sha256d description⟩],.empty,[]⟩

def outputs (description : List UInt8) : Except GenerateCoinbaseTxouts (List TxOut) :=
  extendCoinbaseTxouts id handler.params run.1 (stored description) .all .none tip [⟨50,[0x51]⟩]

end AcksSample

open AcksSample

theorem extendCoinbaseTxouts_acks_iff_sample :
    ∃ active outs, run.1.getActiveSidechains = .ok active ∧ outputs [5] = .ok outs ∧
      AcksCast run.1 [⟨1,sha256d [5]⟩] .all (usedSlots active) (m2sOf outs) := by
  obtain ⟨outs,houts⟩ : ∃ outs, outputs [5] = .ok outs := Fallible.exists_of_isOk (by decide +kernel)
  obtain ⟨info,hinfo⟩ : ∃ info, run.1.blockHashes.getHeaderInfo tip = .ok info :=
    Fallible.exists_of_isOk (by decide +kernel)
  obtain ⟨active,hactive,hiff,-⟩ := extendCoinbaseTxouts_acks_iff
    (fun _ hdata => Script.instructions_newOpReturn_all hdata) (fun l => List.Perm.refl l) hinfo
    (Nat.zero_le _) (by decide +kernel) houts
  refine ⟨active,outs,hactive,houts,hiff.mpr (fun s hs => ?_)⟩
  have hslot : s = 1 := by
    obtain ⟨p,hp,hrow⟩ := hs
    rw [← slot_of_mem_pendingIn hp]
    exact congrArg SidechainAck.sidechainNumber (List.mem_singleton.mp hrow)
  rw [hslot]
  exact ⟨⟨1,[5]⟩,by decide +kernel,List.mem_singleton_self _⟩

/-- An ack for the other one is dropped, and its rival is acked. -/
theorem explicit_ack_dropped :
    ∃ active outs, Reach handler (fun _ _ => True) False run.1 run.2 ∧
      run.1.getActiveSidechains = .ok active ∧ outputs [4] = .ok outs ∧
      Asked run.1 (stored [4]).sidechainAcks 1 ⟨1,[4]⟩ ∧ m2sOf outs = [⟨1,sha256d [5]⟩] ∧
      ¬ AcksCast run.1 (stored [4]).sidechainAcks .all (usedSlots active) (m2sOf outs) := by
  obtain ⟨outs,houts⟩ : ∃ outs, outputs [4] = .ok outs := Fallible.exists_of_isOk (by decide +kernel)
  obtain ⟨active,hactive⟩ : ∃ active, run.1.getActiveSidechains = .ok active :=
    Fallible.exists_of_isOk (by decide +kernel)
  have hm2s : (outputs [4]).toOption.map m2sOf = some [⟨1,sha256d [5]⟩] := by decide +kernel
  rw [houts] at hm2s
  have hm := Option.some.inj hm2s
  have hasked : Asked run.1 (stored [4]).sidechainAcks 1 ⟨1,[4]⟩ :=
    ⟨by decide +kernel,List.mem_singleton_self _⟩
  refine ⟨active,outs,reach_run,hactive,houts,hasked,hm,fun hcast => ?_⟩
  obtain ⟨p,⟨-,hrow⟩,hcasted⟩ := hcast.asked 1 ⟨_,hasked⟩
  rw [hm,List.mem_singleton.mp hrow] at hcasted
  have hne : (⟨1,sha256d [4]⟩ : SidechainAck) ∉ [(⟨1,sha256d [5]⟩ : SidechainAck)] := by
    decide +kernel
  exact hne hcasted

end Sample

end BlockProducer
end Bip300301Enforcer
