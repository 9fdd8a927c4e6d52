import Bip300301Enforcer.BuilderCalls
import Bip300301Enforcer.ProducedMessages

/-! The sidechain acks of a produced coinbase: which pending proposals they are for. -/
namespace Bip300301Enforcer
open Lib

namespace CoinbaseMessage

/-- The ack that an `M2` carries. -/
def m2Ack : CoinbaseMessage → Option SidechainAck
  | .m2AckSidechain s descriptionHash => some ⟨s,descriptionHash⟩
  | _ => none

end CoinbaseMessage

open CoinbaseMessage

def m2sOf [Bitcoin] (outs : List TxOut) : List SidechainAck :=
  (outs.filterMap (fun out => CoinbaseMessage.parse out.scriptPubkey)).filterMap m2Ack

namespace CoinbaseMessages

def m2s (c : CoinbaseMessages) : List SidechainAck := (c.messages.map Prod.fst).filterMap m2Ack

def AcksIndexed (c : CoinbaseMessages) : Prop :=
  ∀ s, c.m2AckSlotToIndex.contains s = true ↔ s ∈ c.m2s.map SidechainAck.sidechainNumber

variable {c c' : CoinbaseMessages} {msg : CoinbaseMessage} {vout : ℕ}

theorem m2s_push (hp : c.push msg vout = .ok c') : c'.m2s = c.m2s++(m2Ack msg).toList :=
  filterMap_push m2Ack hp

theorem AcksIndexed.push (h : c.AcksIndexed) (hp : c.push msg vout = .ok c') : c'.AcksIndexed := by
  intro s
  rw [m2s_push hp]
  unfold CoinbaseMessages.push at hp
  cases msg with
  | m2AckSidechain slot dh =>
    simp only at hp
    split at hp
    · cases hp
    · obtain rfl := Except.ok.inj hp
      simp only [FinMap.contains_insert,Bool.or_eq_true,decide_eq_true_eq,h s,m2Ack,
        Option.toList_some,List.map_append,List.map_cons,List.map_nil,List.mem_append,
        List.mem_singleton]
      rw [or_comm,eq_comm]
  | _ =>
    simp only at hp
    split at hp
    · cases hp
    · obtain rfl := Except.ok.inj hp
      simpa [m2Ack] using h s

theorem acksIndexed_pushAll {l : List (CoinbaseMessage × ℕ)} (h : c.AcksIndexed)
    (hl : c.pushAll l = .ok c') : c'.AcksIndexed :=
  Fallible.foldlM_invariant AcksIndexed hl h (fun _ _ _ _ hc hp => hc.push hp)

variable [Bitcoin] {outs : List TxOut}

theorem messages_new (hn : new outs = .ok c) :
    c.messages.map Prod.fst = outs.filterMap (fun out => CoinbaseMessage.parse out.scriptPubkey) := by
  rw [new,readOutput_pushAll] at hn
  have hread : ∀ (l : List TxOut) (n : ℕ), ((l.zipIdx n).filterMap readMessage).map Prod.fst =
      l.filterMap (fun out => CoinbaseMessage.parse out.scriptPubkey) := by
    intro l
    induction l with
    | nil => intro n; rfl
    | cons out l ih =>
      intro n
      rw [List.zipIdx_cons,List.filterMap_cons,List.filterMap_cons,readMessage]
      cases CoinbaseMessage.parse out.scriptPubkey with
      | none => exact ih (n+1)
      | some msg => exact congrArg (msg::·) (ih (n+1))
  rw [pushAll_messages hn]
  exact hread outs 0

theorem m2s_new (hn : new outs = .ok c) : c.m2s = m2sOf outs := by
  rw [m2s,messages_new hn,m2sOf]

theorem acksIndexed_new (hn : new outs = .ok c) : c.AcksIndexed := by
  rw [new,readOutput_pushAll] at hn
  exact acksIndexed_pushAll (fun s => by simp [default,m2s]) hn

end CoinbaseMessages

namespace CoinbaseBuilder

/-- The builder has these acks, among messages that were added to an earlier one. -/
structure Acks (b₀ b : CoinbaseBuilder) (acks : List SidechainAck) : Prop where
  added : ∃ msgs, b₀.Added b msgs
  indexed : b.messages.AcksIndexed
  acks : b.messages.m2s = acks

variable {b₀ b b' : CoinbaseBuilder} {acks : List SidechainAck} {msg : CoinbaseMessage}

theorem Acks.push (hold : b₀.Old) (hb : Acks b₀ b acks) (hp : b.push msg = .ok b') :
    Acks b₀ b' (acks++(m2Ack msg).toList) := by
  obtain ⟨msgs,hadd⟩ := hb.added
  have hadded : ∃ msgs, b₀.Added b' msgs := ⟨_,hadd.push hold hp⟩
  unfold CoinbaseBuilder.push at hp
  cases hm : b.messages.push msg b.nextVoutIndex with
  | error e => rw [hm] at hp; cases hp
  | ok messages =>
    rw [hm] at hp
    obtain rfl := Except.ok.inj hp
    exact ⟨hadded,hb.indexed.push hm,by rw [CoinbaseMessages.m2s_push hm,hb.acks]⟩

theorem Acks.push_other (hold : b₀.Old) (hb : Acks b₀ b acks) (hp : b.push msg = .ok b')
    (hmsg : m2Ack msg = none) : Acks b₀ b' acks := by
  have hpush := hb.push hold hp
  rwa [hmsg,Option.toList_none,List.append_nil] at hpush

end CoinbaseBuilder

namespace BlockProducer

open CoinbaseBuilder (Acks)

section Stages

variable {b₀ b b' : CoinbaseBuilder} {acks : List SidechainAck}

theorem acks_proposeSomeSidechain {proposal : Option SidechainProposal} (hold : b₀.Old)
    (hb : Acks b₀ b acks) (hp : proposeSomeSidechain b proposal = .ok b') : Acks b₀ b' acks := by
  cases proposal with
  | none =>
    obtain rfl := Except.ok.inj hp
    exact hb
  | some proposal => exact hb.push_other hold hp rfl

theorem acks_proposeSomeBundle {selected : Option (SidechainNumber × M6id)} (hold : b₀.Old)
    (hb : Acks b₀ b acks) (hp : proposeSomeBundle b selected = .ok b') : Acks b₀ b' acks := by
  unfold proposeSomeBundle at hp
  split at hp
  · obtain rfl := Except.ok.inj hp
    exact hb
  · split at hp
    · obtain rfl := Except.ok.inj hp
      exact hb
    · exact hb.push_other hold hp rfl

theorem acks_ackSomeBundles {thresholds : Thresholds} {dbs : Dbs} {used : List SidechainNumber}
    {n : ℕ} {votes : List WithdrawalBundleVote} [Bitcoin] (hold : b₀.Old) (hb : Acks b₀ b acks)
    (hp : ackSomeBundles thresholds dbs b used n votes = .ok b') : Acks b₀ b' acks := by
  unfold ackSomeBundles at hp
  split at hp
  · exact hb.push_other hold hp rfl
  · obtain rfl := Except.ok.inj hp
    exact hb

/-- At most one ack for each slot is added, and every slot that is to be acked has one. -/
theorem acks_ackSidechains {chosen : List SidechainAck} (hold : b₀.Old) (hb : Acks b₀ b [])
    (hp : ackSidechains b chosen = .ok b') :
    ∃ acks, Acks b₀ b' acks ∧ (acks.map SidechainAck.sidechainNumber).Nodup ∧ acks ⊆ chosen ∧
      ∀ ack ∈ chosen, ack.sidechainNumber ∈ acks.map SidechainAck.sidechainNumber := by
  refine Fallible.foldlM_prefix (fun done b => ∃ acks, Acks b₀ b acks ∧
    (acks.map SidechainAck.sidechainNumber).Nodup ∧ acks ⊆ done ∧
      ∀ ack ∈ done, ack.sidechainNumber ∈ acks.map SidechainAck.sidechainNumber) hp
    ⟨[],hb,by simp,by simp,by simp⟩ ?_
  rintro done ack rest b b' _ ⟨acks,hb,hnodup,hsub,hcover⟩ hstep
  have hindexed := hb.indexed ack.sidechainNumber
  rw [hb.acks] at hindexed
  split at hstep
  · rename_i hthere
    obtain rfl := Except.ok.inj hstep
    refine ⟨acks,hb,hnodup,fun a ha => List.mem_append_left _ (hsub ha),fun a ha => ?_⟩
    rcases List.mem_append.mp ha with ha | ha
    · exact hcover a ha
    · obtain rfl := List.mem_singleton.mp ha
      exact hindexed.mp hthere
  · rename_i hnot
    have hnew : ack.sidechainNumber ∉ acks.map SidechainAck.sidechainNumber :=
      fun hm => hnot (hindexed.mpr hm)
    refine ⟨acks++[ack],hb.push hold hstep,?_,?_,?_⟩
    · rw [List.map_append,List.map_singleton,List.nodup_append]
      refine ⟨hnodup,by simp,?_⟩
      rintro s hs _ hs' rfl
      exact hnew (by rwa [List.mem_singleton.mp hs'] at hs)
    · exact List.append_subset.mpr ⟨fun a ha => List.mem_append_left _ (hsub ha),by simp⟩
    · intro a ha
      rw [List.map_append,List.mem_append]
      rcases List.mem_append.mp ha with ha | ha
      · exact .inl (hcover a ha)
      · rw [List.mem_singleton.mp ha]
        exact .inr (by simp)

end Stages

end BlockProducer
end Bip300301Enforcer
