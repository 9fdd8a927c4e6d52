import Bip300301Enforcer.ConnectBlock

/-! The messages of an accepted coinbase are those that its outputs parse to, and
some of them appear at most once. -/
namespace Bip300301Enforcer
open Lib

namespace CoinbaseMessage

/-- The slot of an `M2`. -/
def m2Slot : CoinbaseMessage → Option SidechainNumber
  | .m2AckSidechain s _ => some s
  | _ => none

def isM3 : CoinbaseMessage → Bool
  | .m3ProposeBundle _ _ => true
  | _ => false

def isM4 : CoinbaseMessage → Bool
  | .m4AckBundles _ => true
  | _ => false

end CoinbaseMessage

open CoinbaseMessage

def Transaction.messages [Bitcoin] (tx : Transaction) : List CoinbaseMessage :=
  tx.output.filterMap (fun out => CoinbaseMessage.parse out.scriptPubkey)

def Block.messages [Bitcoin] (b : Block) : List CoinbaseMessage :=
  match b.txdata with
  | [] => []
  | coinbase::_ => coinbase.messages

/-- One vote for each slot, one bundle and one vote on bundles. -/
structure OneEach (l : List CoinbaseMessage) : Prop where
  m2 : (l.filterMap m2Slot).Nodup
  m3 : (l.filter isM3).length ≤ 1
  m4 : (l.filter isM4).length ≤ 1

namespace CoinbaseMessages

structure Pushed (c : CoinbaseMessages) (l : List CoinbaseMessage) : Prop where
  messages : c.messages.map Prod.fst = l
  m2 : (l.filterMap m2Slot).Nodup ∧ ∀ s ∈ l.filterMap m2Slot, c.m2AckSlotToIndex.contains s = true
  m3 : (l.filter isM3).length = c.m3Index.toList.length
  m4 : (l.filter isM4).length = c.m4Index.toList.length

theorem Pushed.oneEach {c : CoinbaseMessages} {l : List CoinbaseMessage} (h : c.Pushed l) :
    OneEach l := by
  refine ⟨h.m2.1,?_,?_⟩
  · rw [h.m3]; cases c.m3Index <;> simp
  · rw [h.m4]; cases c.m4Index <;> simp

theorem Pushed.other {c c' : CoinbaseMessages} {l : List CoinbaseMessage} {msg : CoinbaseMessage}
    (h : c.Pushed l) (hm : c'.messages.map Prod.fst = l++[msg]) (h₂ : msg.m2Slot = none)
    (h₃ : msg.isM3 = false) (h₄ : msg.isM4 = false)
    (hi : c'.m2AckSlotToIndex = c.m2AckSlotToIndex ∧ c'.m3Index = c.m3Index ∧ c'.m4Index = c.m4Index) :
    c'.Pushed (l++[msg]) := by
  obtain ⟨hi₂,hi₃,hi₄⟩ := hi
  refine ⟨hm,?_,?_,?_⟩
  · rw [List.filterMap_append,hi₂]
    simpa [h₂] using h.m2
  · rw [List.filter_append,hi₃]
    simpa [h₃] using h.m3
  · rw [List.filter_append,hi₄]
    simpa [h₄] using h.m4

theorem Pushed.ack {c c' : CoinbaseMessages} {l : List CoinbaseMessage} {msg : CoinbaseMessage}
    {s : SidechainNumber} {i : ℕ} (h : c.Pushed l) (hm : c'.messages.map Prod.fst = l++[msg])
    (hslot : msg.m2Slot = some s) (h₃ : msg.isM3 = false) (h₄ : msg.isM4 = false)
    (hnone : c.m2AckSlotToIndex.get? s = none)
    (hi : c'.m2AckSlotToIndex = c.m2AckSlotToIndex.insert s i ∧ c'.m3Index = c.m3Index ∧
      c'.m4Index = c.m4Index) : c'.Pushed (l++[msg]) := by
  obtain ⟨hi₂,hi₃,hi₄⟩ := hi
  have hone : [msg].filterMap m2Slot = [s] := by simp [hslot]
  have hnew : s ∉ l.filterMap m2Slot := by
    intro hmem
    have hold := h.m2.2 s hmem
    simp [FinMap.contains,hnone] at hold
  refine ⟨hm,⟨?_,?_⟩,?_,?_⟩
  · rw [List.filterMap_append,hone,← List.concat_eq_append]
    exact List.Nodup.concat hnew h.m2.1
  · intro a ha
    rw [List.filterMap_append,hone,List.mem_append,List.mem_singleton] at ha
    rw [hi₂,FinMap.contains_insert,Bool.or_eq_true,decide_eq_true_eq]
    cases ha with
    | inl hold => exact .inr (h.m2.2 a hold)
    | inr hs => exact .inl hs.symm
  · rw [List.filter_append,hi₃]
    simpa [h₃] using h.m3
  · rw [List.filter_append,hi₄]
    simpa [h₄] using h.m4

theorem pushed_push {c c' : CoinbaseMessages} {l : List CoinbaseMessage} {msg : CoinbaseMessage}
    {vout : ℕ} (h : c.Pushed l) (hp : c.push msg vout = .ok c') : c'.Pushed (l++[msg]) := by
  have hmsg : (c.messages++[(msg,vout)]).map Prod.fst = l++[msg] := by
    rw [List.map_append,h.messages]
    rfl
  unfold push at hp
  cases msg with
  | m1ProposeSidechain s description =>
    simp only at hp
    split at hp
    · cases hp
    · obtain rfl := Except.ok.inj hp
      exact h.other hmsg rfl rfl rfl ⟨rfl,rfl,rfl⟩
  | m2AckSidechain s dh =>
    simp only at hp
    split at hp
    · cases hp
    · rename_i hnone
      obtain rfl := Except.ok.inj hp
      exact h.ack hmsg rfl rfl rfl hnone ⟨rfl,rfl,rfl⟩
  | m3ProposeBundle s m6id =>
    simp only at hp
    split at hp
    · cases hp
    · rename_i hnone
      obtain rfl := Except.ok.inj hp
      have h₃ := h.m3
      rw [hnone] at h₃
      refine ⟨hmsg,?_,?_,?_⟩
      · have hnil : [m3ProposeBundle s m6id].filterMap m2Slot = [] := rfl
        rw [List.filterMap_append,hnil,List.append_nil]
        exact h.m2
      · rw [List.filter_append,List.length_append,h₃]
        rfl
      · rw [List.filter_append]
        simpa [isM4] using h.m4
  | m4AckBundles m4 =>
    simp only at hp
    split at hp
    · cases hp
    · rename_i hnone
      obtain rfl := Except.ok.inj hp
      have h₄ := h.m4
      rw [hnone] at h₄
      refine ⟨hmsg,?_,?_,?_⟩
      · have hnil : [m4AckBundles m4].filterMap m2Slot = [] := rfl
        rw [List.filterMap_append,hnil,List.append_nil]
        exact h.m2
      · rw [List.filter_append]
        simpa [isM3] using h.m3
      · rw [List.filter_append,List.length_append,h₄]
        rfl
  | m7BmmAccept s commitment =>
    simp only at hp
    split at hp
    · cases hp
    · obtain rfl := Except.ok.inj hp
      exact h.other hmsg rfl rfl rfl ⟨rfl,rfl,rfl⟩

end CoinbaseMessages

namespace BlockHandler

variable [Bitcoin]

/-- The messages that are read off an accepted coinbase. -/
theorem scanCoinbase_ok {coinbase : Transaction} {scan : CoinbaseScan}
    (hs : scanCoinbase coinbase = .ok scan) :
    scan.messages.messages.map Prod.fst = coinbase.messages ∧ OneEach coinbase.messages := by
  have hspec := Fallible.foldlM_prefix
    (fun done acc => acc.messages.Pushed
      (done.filterMap (fun e : TxOut × ℕ => CoinbaseMessage.parse e.1.scriptPubkey))) hs
    ⟨rfl,by simp,rfl,rfl⟩ ?_
  · have hmap : coinbase.output.zipIdx.filterMap
        (fun e : TxOut × ℕ => CoinbaseMessage.parse e.1.scriptPubkey) = coinbase.messages := by
      rw [Transaction.messages,← List.zipIdx_map_fst 0 coinbase.output,List.filterMap_map,
        List.zipIdx_map_fst]
      rfl
    rw [hmap] at hspec
    exact ⟨hspec.messages,hspec.oneEach⟩
  · intro done e rest acc acc' _ hI hstep
    unfold scanOutput at hstep
    rw [List.filterMap_append]
    split at hstep
    · rename_i hnone
      obtain rfl := Except.ok.inj hstep
      simpa [hnone] using hI
    · rename_i msg hsome
      obtain ⟨messages,hpush,hstep⟩ := Fallible.bind_ok.mp hstep
      rw [Fallible.pure_ok] at hstep
      subst hstep
      have hpush : acc.messages.push msg e.2 = .ok messages := by
        cases hp : acc.messages.push msg e.2 with
        | ok m =>
          rw [hp] at hpush
          exact congrArg Except.ok (Except.ok.inj hpush)
        | error err => rw [hp] at hpush; cases hpush
      simpa [hsome] using CoinbaseMessages.pushed_push hI hpush

/-- Every proposal in an accepted coinbase has its output index. -/
theorem scanCoinbase_proposals {coinbase : Transaction} {scan : CoinbaseScan}
    (hs : scanCoinbase coinbase = .ok scan) {s : SidechainNumber} {description : List UInt8}
    (hm : .m1ProposeSidechain s description ∈ coinbase.messages) :
    scan.m1SidechainProposals.contains ⟨s,sha256d description⟩ = true := by
  have hspec := Fallible.foldlM_prefix
    (fun done acc => ∀ s description, (.m1ProposeSidechain s description : CoinbaseMessage) ∈
      done.filterMap (fun e : TxOut × ℕ => CoinbaseMessage.parse e.1.scriptPubkey) →
        acc.m1SidechainProposals.contains ⟨s,sha256d description⟩ = true) hs ?_ ?_
  · refine hspec s description ?_
    rw [Transaction.messages,← List.zipIdx_map_fst 0 coinbase.output,List.filterMap_map] at hm
    exact hm
  · intro s description hmem
    cases hmem
  · intro done e rest acc acc' _ hI hstep s description hmem
    unfold scanOutput at hstep
    rw [List.filterMap_append,List.mem_append] at hmem
    split at hstep
    · rename_i hnone
      obtain rfl := Except.ok.inj hstep
      refine hI s description (hmem.resolve_right ?_)
      simp [hnone]
    · rename_i msg hsome
      obtain ⟨messages,-,hstep⟩ := Fallible.bind_ok.mp hstep
      rw [Fallible.pure_ok] at hstep
      subst hstep
      simp only [List.filterMap_cons,hsome,List.filterMap_nil,List.mem_singleton] at hmem
      cases msg with
      | m1ProposeSidechain s' description' =>
        simp only
        rcases hmem with hmem | hmem
        · have hold := hI s description hmem
          split
          · exact hold
          · rw [FinMap.contains_insert,hold,Bool.or_true]
        · obtain ⟨rfl,rfl⟩ := CoinbaseMessage.m1ProposeSidechain.inj hmem
          split
          · assumption
          · rw [FinMap.contains_insert]
            simp
      | _ => exact hI s description (hmem.resolve_right (by simp))

end BlockHandler
end Bip300301Enforcer
