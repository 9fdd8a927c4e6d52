import Bip300301Enforcer.Diff
import Bip300301Enforcer.BlockHandler
import Bip300301Enforcer.Lib.Undo

/-! Undoing a diff of the coinbase phase restores the tables exactly. What a
diff recorded about the tables when it was made is a hypothesis here, and the
handlers establish it. -/
namespace Bip300301Enforcer
open Lib

theorem incrementVotes_ok {v w : UInt16} : incrementVotes v = .ok w ↔ v ≠ 0xFFFF ∧ v+1 = w := by
  unfold incrementVotes
  by_cases h : v = 0xFFFF <;> simp [h]

theorem add_one_ne_zero_of_ne_max {v : UInt16} (h : v ≠ 0xFFFF) : v+1 ≠ 0 := by
  intro h'
  apply h
  have : v = (v+1)-1 := by simp
  rw [this,h']
  rfl

theorem sub_one_ne_max {v : UInt16} (h : v ≠ 0) : v-1 ≠ 0xFFFF := by
  intro h'
  apply h
  have : v = (v-1)+1 := by simp
  rw [this,h']
  rfl

namespace PendingM6idInfo

def plusOne (info : PendingM6idInfo) : PendingM6idInfo := { info with voteCount := info.voteCount+1 }

theorem increment_eq {info : PendingM6idInfo} (h : info.voteCount ≠ 0xFFFF) :
    info.increment = .ok info.plusOne := by
  simp [increment,incrementVotes,h,Except.map,plusOne]

theorem increment_ok {info info' : PendingM6idInfo} :
    info.increment = .ok info' ↔ info.voteCount ≠ 0xFFFF ∧ info' = info.plusOne := by
  by_cases h : info.voteCount = 0xFFFF
  · simp [increment,incrementVotes,h,Except.map]
  · simp [increment_eq h,h,eq_comm]

end PendingM6idInfo

namespace ActiveSidechainDbs

theorem downvote_plusOne {info : PendingM6idInfo} (h : info.voteCount ≠ 0) :
    (downvote info).plusOne = info := by
  simp [downvote,h,PendingM6idInfo.plusOne]

theorem downvote_ne_max {info : PendingM6idInfo} (h : info.voteCount ≠ 0) :
    (downvote info).voteCount ≠ 0xFFFF := by
  simpa [downvote,h] using sub_one_ne_max h

theorem downvote_of_zero {info : PendingM6idInfo} (h : info.voteCount = 0) : downvote info = info := by
  simp [downvote,h]

theorem withPendingWithdrawals_ok {dbs dbs' : ActiveSidechainDbs} {s : SidechainNumber}
    {f : PendingM6ids → Res PendingM6ids} :
    dbs.withPendingWithdrawals s f = .ok dbs' ↔
      ∃ p q, dbs.pendingM6ids.get? s = some p ∧ f p = .ok q ∧
        dbs' = { dbs with pendingM6ids := dbs.pendingM6ids.insert s q } := by
  simp only [withPendingWithdrawals,Fallible.bind_ok,Database.get_ok,Fallible.pure_ok]
  constructor
  · rintro ⟨p,hp,q,hq,rfl⟩; exact ⟨p,q,hp,hq,rfl⟩
  · rintro ⟨p,q,hp,hq,rfl⟩; exact ⟨p,hp,q,hq,rfl⟩

theorem withPendingWithdrawals_inverse {dbs dbs' : ActiveSidechainDbs} {s : SidechainNumber}
    {f g : PendingM6ids → Res PendingM6ids} (h : dbs.withPendingWithdrawals s f = .ok dbs')
    (inv : ∀ p q, dbs.pendingM6ids.get? s = some p → f p = .ok q → g q = .ok p) :
    dbs'.withPendingWithdrawals s g = .ok dbs := by
  obtain ⟨p,q,hp,hq,rfl⟩ := withPendingWithdrawals_ok.mp h
  refine withPendingWithdrawals_ok.mpr ⟨q,p,by simp,inv p q hp hq,?_⟩
  simp [FinMap.insert_of_get? hp]

theorem foldlM_withPendingWithdrawals {A : Type} (f : SidechainNumber → A → PendingM6ids → Res PendingM6ids)
    (l : List (SidechainNumber × A)) (dbs : ActiveSidechainDbs) :
    l.foldlM (fun dbs e => dbs.withPendingWithdrawals e.1 (f e.1 e.2)) dbs =
      (FinMap.updateEach (.db .pendingM6ids) f l dbs.pendingM6ids).map
        (fun p => { dbs with pendingM6ids := p }) := by
  induction l generalizing dbs with
  | nil => rfl
  | cons e l ih =>
    simp only [List.foldlM_cons,FinMap.updateEach,withPendingWithdrawals,Database.get]
    cases hp : dbs.pendingM6ids.get? e.1 with
    | none => rfl
    | some p =>
      simp only [Fallible.require_some,Fallible.ok_bind]
      cases hq : f e.1 e.2 p with
      | error _ => rfl
      | ok q => exact ih _

end ActiveSidechainDbs

namespace Diff

namespace NewSidechainProposal

theorem undo_apply {d : NewSidechainProposal} {dbs : ConsensusDbs}
    (h : dbs.proposalIdToSidechain.get? d.id = none) : d.undo (d.apply dbs) = dbs := by
  simp [undo,apply,FinMap.erase_insert _ h]

end NewSidechainProposal

namespace AckSidechainProposal

/-- What the effect of an ack says about the slot before the ack. -/
def Fits (d : AckSidechainProposal) (dbs : ActiveSidechainDbs) : Prop :=
  match d.effect with
  | .noActivation => True
  | .replaceActive prev =>
    dbs.sidechain.get? d.id.sidechainNumber = some prev ∧
      dbs.pendingM6ids.contains d.id.sidechainNumber = true
  | .slotActivation =>
    dbs.sidechain.get? d.id.sidechainNumber = none ∧
      dbs.pendingM6ids.get? d.id.sidechainNumber = none

theorem withVotes_incr_decr (sc : Sidechain) :
    (sc.withVotes (sc.status.voteCount+1)).withVotes
      ((sc.withVotes (sc.status.voteCount+1)).status.voteCount-1) = sc := by
  simp [Sidechain.withVotes]

theorem withActivation_withVotes {sc : Sidechain} (v : UInt16) (height : ℕ)
    (h : sc.status.activationHeight = none) :
    ((sc.withVotes v).withActivation (some height)).withActivation none = sc.withVotes v := by
  obtain ⟨p,⟨n,k,a⟩⟩ := sc
  simp only at h
  simp [Sidechain.withVotes,Sidechain.withActivation,h]

theorem undo_of_deactivate {d : AckSidechainProposal} {dbs : ConsensusDbs} {sc : Sidechain}
    (dbs₀ : ConsensusDbs) (hd : d.deactivate dbs = .ok (sc.withVotes (sc.status.voteCount+1),dbs₀))
    (hv : sc.status.voteCount ≠ 0xFFFF) :
    d.undo dbs = .ok { dbs₀ with
      proposalIdToSidechain := dbs₀.proposalIdToSidechain.insert d.id sc } := by
  have hne : (sc.withVotes (sc.status.voteCount+1)).status.voteCount ≠ 0 :=
    add_one_ne_zero_of_ne_max hv
  have hens : Fallible.ensure (decide ((sc.withVotes (sc.status.voteCount+1)).status.voteCount ≠ 0))
      (Error.sidechainVoteCountUnderflow d.id.sidechainNumber) = .ok () :=
    (Fallible.ensure_ok _ _ _).mpr (decide_eq_true hne)
  simp only [undo,hd,Fallible.ok_bind,hens,withVotes_incr_decr]
  rfl

theorem undo_apply {d : AckSidechainProposal} {dbs dbs' : ConsensusDbs} {height : ℕ}
    {sc : Sidechain} (hsc : dbs.proposalIdToSidechain.get? d.id = some sc)
    (hact : sc.status.activationHeight = none) (hfit : d.Fits dbs.activeSidechains)
    (h : d.apply dbs height = .ok dbs') : d.undo dbs' = .ok dbs := by
  obtain ⟨id,effect⟩ := d
  simp only [apply,Fallible.bind_ok,Database.get_ok] at h
  obtain ⟨sc',hsc',votes,hvotes,h⟩ := h
  obtain rfl := Option.some.inj (hsc.symm.trans hsc')
  obtain ⟨hmax,rfl⟩ := incrementVotes_ok.mp hvotes
  cases effect with
  | noActivation =>
    simp only [Fallible.pure_ok] at h
    subst h
    refine (undo_of_deactivate { dbs with
      proposalIdToSidechain := dbs.proposalIdToSidechain.insert id
        (sc.withVotes (sc.status.voteCount+1)) } ?_ hmax).trans ?_
    · simp only [deactivate,Database.get,FinMap.get?_insert_self,Fallible.require_some,
        Fallible.ok_bind]
      rfl
    · simp [FinMap.insert_of_get? hsc]
  | replaceActive prev =>
    obtain ⟨hprev,hpend⟩ := hfit
    simp only [Fallible.pure_ok] at h
    subst h
    refine (undo_of_deactivate { dbs with
      proposalIdToSidechain := dbs.proposalIdToSidechain.erase id } ?_ hmax).trans ?_
    · simp only [deactivate,activate,ActiveSidechainDbs.putSidechain,Database.get,
        FinMap.get?_insert_self,Fallible.require_some,Fallible.ok_bind,
        withActivation_withVotes _ _ hact,hpend,if_true,FinMap.insert_insert,
        FinMap.insert_of_get? hprev]
      rfl
    · simp [FinMap.insert_erase hsc]
  | slotActivation =>
    obtain ⟨hsl,hpend⟩ := hfit
    simp only [Fallible.pure_ok] at h
    subst h
    have hc : dbs.activeSidechains.pendingM6ids.contains id.sidechainNumber = false :=
      (FinMap.contains_false_iff _ _).mpr hpend
    refine (undo_of_deactivate { dbs with
      proposalIdToSidechain := dbs.proposalIdToSidechain.erase id } ?_ hmax).trans ?_
    · simp only [deactivate,activate,ActiveSidechainDbs.putSidechain,
        ActiveSidechainDbs.deleteSidechain,Database.get,FinMap.get?_insert_self,
        Fallible.require_some,Fallible.ok_bind,withActivation_withVotes _ _ hact,hc,
        Bool.false_eq_true,if_false,FinMap.erase_insert _ hsl,FinMap.erase_insert _ hpend]
      rfl
    · simp [FinMap.insert_erase hsc]

end AckSidechainProposal

namespace ProposeBundle

theorem undo_apply {d : ProposeBundle} {dbs dbs' : ActiveSidechainDbs} {height : ℕ}
    (hnew : ∀ p, dbs.pendingM6ids.get? d.sidechainNumber = some p → d.m6id ∉ p.keys)
    (h : d.apply dbs height = .ok dbs') : d.undo dbs' = .ok dbs := by
  refine ActiveSidechainDbs.withPendingWithdrawals_inverse h ?_
  intro p q hp hq
  obtain rfl := Except.ok.inj hq
  rw [OrderMap.remove_insert _ (hnew p hp)]

end ProposeBundle

namespace AckBundleAction

def Fits (a : AckBundleAction) (pending : PendingM6ids) : Prop :=
  match a with
  | .alarm positive => positive = positiveVotesProposalsForAlarm pending
  | .upvote m6id others => m6id ∈ pending.keys ∧ others = downvotedOthersForUpvote pending m6id

theorem mem_downvotedOthers {pending : PendingM6ids} {target k : M6id} {info : PendingM6idInfo}
    (h : pending.get? k = some info) :
    k ∈ downvotedOthersForUpvote pending target ↔ k ≠ target ∧ info.voteCount ≠ 0 := by
  simp only [downvotedOthersForUpvote,List.mem_map,List.mem_filter,Bool.and_eq_true,decide_eq_true_eq]
  constructor
  · rintro ⟨⟨a,i⟩,⟨hm,hne,hpos⟩,rfl⟩
    obtain rfl := Option.some.inj (h.symm.trans (OrderMap.mem_entries.mp hm))
    exact ⟨hne,UInt16.pos_iff_ne_zero.mp hpos⟩
  · rintro ⟨hne,hpos⟩
    exact ⟨(k,info),⟨OrderMap.mem_entries.mpr h,hne,UInt16.pos_iff_ne_zero.mpr hpos⟩,rfl⟩

theorem mem_positiveVotes {pending : PendingM6ids} {k : M6id} {info : PendingM6idInfo}
    (h : pending.get? k = some info) :
    k ∈ positiveVotesProposalsForAlarm pending ↔ info.voteCount ≠ 0 := by
  simp only [positiveVotesProposalsForAlarm,List.mem_map,List.mem_filter,decide_eq_true_eq]
  constructor
  · rintro ⟨⟨a,i⟩,⟨hm,hpos⟩,rfl⟩
    obtain rfl := Option.some.inj (h.symm.trans (OrderMap.mem_entries.mp hm))
    exact UInt16.pos_iff_ne_zero.mp hpos
  · intro hpos
    exact ⟨(k,info),⟨OrderMap.mem_entries.mpr h,UInt16.pos_iff_ne_zero.mpr hpos⟩,rfl⟩

theorem nodup_downvotedOthers (pending : PendingM6ids) (target : M6id) :
    (downvotedOthersForUpvote pending target).Nodup :=
  pending.nodup.sublist (List.filter_sublist.map _)

theorem mem_keys_of_mem_downvotedOthers {pending : PendingM6ids} {target k : M6id}
    (h : k ∈ downvotedOthersForUpvote pending target) : ∃ info, pending.get? k = some info := by
  obtain ⟨⟨a,i⟩,hm,rfl⟩ := List.mem_map.mp h
  exact ⟨i,OrderMap.mem_entries.mp (List.mem_filter.mp hm).1⟩

def upvoted (target : M6id) (others : List M6id) (k : M6id) (info : PendingM6idInfo) :
    PendingM6idInfo :=
  if k = target then info.plusOne else if k ∈ others then ActiveSidechainDbs.downvote info else info

theorem upvotePending_ok {target : M6id} {others : List M6id} {p q : PendingM6ids}
    (hn : others.Nodup) (ht : target ∉ others) (h : upvotePending target others p = .ok q) :
    ∃ info, p.get? target = some info ∧ info.voteCount ≠ 0xFFFF ∧ q = p.mapVals (upvoted target others) := by
  simp only [upvotePending,Fallible.bind_ok,Fallible.require_ok,Fallible.pure_ok] at h
  obtain ⟨info,hinfo,info',hinc,rfl⟩ := h
  obtain ⟨hmax,rfl⟩ := PendingM6idInfo.increment_ok.mp hinc
  refine ⟨info,hinfo,hmax,?_⟩
  have hk : target ∈ p.keys := OrderMap.contains_iff.mp (by simp [OrderMap.contains,hinfo])
  rw [OrderMap.insert_of_mem _ hk,OrderMap.foldl_modify _ hn,OrderMap.mapVals_mapVals]
  apply OrderMap.mapVals_congr
  intro k i hi
  by_cases e : k = target
  · subst e
    obtain rfl := Option.some.inj (hinfo.symm.trans hi)
    simp [upvoted,ht]
  · simp [upvoted,e]

/-- Restoring the votes of listed bundles. -/
theorem foldlM_restoreVote (l : List M6id) (hl : l.Nodup) (p : PendingM6ids)
    (h : ∀ k ∈ l, ∃ info, p.get? k = some info ∧ info.voteCount ≠ 0xFFFF) :
    l.foldlM restoreVote p =
      .ok (p.mapVals (fun k info => if k ∈ l then info.plusOne else info)) := by
  induction l generalizing p with
  | nil => exact congrArg Except.ok (OrderMap.mapVals_eq_self (by simp)).symm
  | cons k l ih =>
    simp only [List.nodup_cons] at hl
    obtain ⟨info,hinfo,hmax⟩ := h k (List.mem_cons_self ..)
    have hk : k ∈ p.keys := OrderMap.contains_iff.mp (by simp [OrderMap.contains,hinfo])
    have hstep : restoreVote p k = .ok (p.insert k info.plusOne) := by
      simp [restoreVote,hinfo,PendingM6idInfo.increment_eq hmax,Except.map]
    rw [List.foldlM_cons,hstep,Fallible.ok_bind,ih hl.2]
    · rw [OrderMap.insert_of_mem _ hk,OrderMap.mapVals_mapVals]
      refine congrArg Except.ok (OrderMap.mapVals_congr ?_)
      intro a i hi
      by_cases e : a = k
      · subst e
        obtain rfl := Option.some.inj (hinfo.symm.trans hi)
        simp [hl.1]
      · simp [e]
    · intro a ha
      have hne : a ≠ k := by rintro rfl; exact hl.1 ha
      rw [OrderMap.get?_insert,if_neg hne]
      exact h a (List.mem_cons_of_mem _ ha)

theorem undoUpvotePending_upvotePending {s : SidechainNumber} {target : M6id} {p q : PendingM6ids}
    (h : upvotePending target (downvotedOthersForUpvote p target) p = .ok q) :
    undoUpvotePending s target (downvotedOthersForUpvote p target) q = .ok p := by
  have hn := nodup_downvotedOthers p target
  have ht : target ∉ downvotedOthersForUpvote p target := by
    intro hm
    obtain ⟨info,hinfo⟩ := mem_keys_of_mem_downvotedOthers hm
    exact ((mem_downvotedOthers hinfo).mp hm).1 rfl
  obtain ⟨info,hinfo,hmax,rfl⟩ := upvotePending_ok hn ht h
  have hget : (p.mapVals (upvoted target (downvotedOthersForUpvote p target))).get? target =
      some info.plusOne := by simp [hinfo,upvoted]
  have hne : info.plusOne.voteCount ≠ 0 := add_one_ne_zero_of_ne_max hmax
  have hk : target ∈ (p.mapVals (upvoted target (downvotedOthersForUpvote p target))).keys :=
    OrderMap.contains_iff.mp (by simp [OrderMap.contains,hinfo])
  have hens : Fallible.ensure (decide (info.plusOne.voteCount ≠ 0))
      (Error.bundleVoteCountUnderflow s target) = .ok () :=
    (Fallible.ensure_ok _ _ _).mpr (decide_eq_true hne)
  simp only [undoUpvotePending,hget,Fallible.require_some,Fallible.ok_bind,hens]
  rw [OrderMap.insert_of_mem _ hk,OrderMap.mapVals_mapVals]
  refine (foldlM_restoreVote _ hn _ ?_).trans ?_
  · intro k hkm
    obtain ⟨i,hi⟩ := mem_keys_of_mem_downvotedOthers hkm
    obtain ⟨hkt,hpos⟩ := (mem_downvotedOthers hi).mp hkm
    refine ⟨_,by rw [OrderMap.get?_mapVals,hi,Option.map_some],?_⟩
    simpa [hkt,upvoted,hkm] using ActiveSidechainDbs.downvote_ne_max hpos
  · rw [OrderMap.mapVals_mapVals]
    refine congrArg Except.ok (OrderMap.mapVals_eq_self ?_)
    intro k i hi
    by_cases e : k = target
    · subst e
      obtain rfl := Option.some.inj (hinfo.symm.trans hi)
      simp [ht,PendingM6idInfo.plusOne]
    · by_cases hkm : k ∈ downvotedOthersForUpvote p target
      · simp [e,hkm,upvoted,ActiveSidechainDbs.downvote_plusOne ((mem_downvotedOthers hi).mp hkm).2]
      · simp [e,hkm,upvoted]

theorem undoAlarmPending_alarm (p : PendingM6ids) :
    undoAlarmPending (positiveVotesProposalsForAlarm p)
      (p.mapVals (fun _ info => ActiveSidechainDbs.downvote info)) = .ok p := by
  refine (OrderMap.traverseVals_ok (g := fun k info =>
    if k ∈ positiveVotesProposalsForAlarm p then info.plusOne else info) ?_).trans ?_
  · intro k info' h
    rw [OrderMap.get?_mapVals,Option.map_eq_some_iff] at h
    obtain ⟨info,hinfo,rfl⟩ := h
    by_cases hk : k ∈ positiveVotesProposalsForAlarm p
    · simp [hk,PendingM6idInfo.increment_eq
        (ActiveSidechainDbs.downvote_ne_max ((mem_positiveVotes hinfo).mp hk))]
    · simp [hk]
  · rw [OrderMap.mapVals_mapVals]
    refine congrArg Except.ok (OrderMap.mapVals_eq_self ?_)
    intro k info hinfo
    by_cases hk : k ∈ positiveVotesProposalsForAlarm p
    · simp [hk,ActiveSidechainDbs.downvote_plusOne ((mem_positiveVotes hinfo).mp hk)]
    · have hz : info.voteCount = 0 := by
        by_contra hz
        exact hk ((mem_positiveVotes hinfo).mpr hz)
      simp [hk,ActiveSidechainDbs.downvote_of_zero hz]

def applyPending (a : AckBundleAction) (p : PendingM6ids) : Res PendingM6ids :=
  match a with
  | .alarm _ => .ok (p.mapVals (fun _ info => ActiveSidechainDbs.downvote info))
  | .upvote m6id others => upvotePending m6id others p

/-- How the pending bundles of a slot are restored. -/
def undoPending (s : SidechainNumber) (a : AckBundleAction) (p : PendingM6ids) : Res PendingM6ids :=
  match a with
  | .alarm positive => undoAlarmPending positive p
  | .upvote m6id others => undoUpvotePending s m6id others p

theorem apply_eq (a : AckBundleAction) (dbs : ActiveSidechainDbs) (s : SidechainNumber) :
    a.apply dbs s = dbs.withPendingWithdrawals s a.applyPending := by
  cases a <;> rfl

theorem undo_eq (a : AckBundleAction) (dbs : ActiveSidechainDbs) (s : SidechainNumber) :
    a.undo dbs s = dbs.withPendingWithdrawals s (undoPending s a) := by
  cases a <;> rfl

theorem undoPending_applyPending {a : AckBundleAction} {s : SidechainNumber} {p q : PendingM6ids}
    (hfit : a.Fits p) (h : a.applyPending p = .ok q) : undoPending s a q = .ok p := by
  cases a with
  | alarm positive =>
    obtain rfl := hfit
    obtain rfl := Except.ok.inj h
    exact undoAlarmPending_alarm p
  | upvote m6id others =>
    obtain ⟨-,rfl⟩ := hfit
    exact undoUpvotePending_upvotePending h

end AckBundleAction

namespace AckBundles

/-- Every action was made for the pending bundles of its slot. -/
def Fits (d : AckBundles) (dbs : ActiveSidechainDbs) : Prop :=
  ∀ s a p, d.actions.get? s = some a → dbs.pendingM6ids.get? s = some p → a.Fits p

theorem apply_eq (d : AckBundles) (dbs : ActiveSidechainDbs) :
    d.apply dbs = (FinMap.updateEach (.db .pendingM6ids) (fun _ a p => a.applyPending p)
      d.actions.toList dbs.pendingM6ids).map (fun p => { dbs with pendingM6ids := p }) := by
  rw [← ActiveSidechainDbs.foldlM_withPendingWithdrawals]
  simp only [apply,AckBundleAction.apply_eq]

theorem undo_eq (d : AckBundles) (dbs : ActiveSidechainDbs) :
    d.undo dbs = (FinMap.updateEach (.db .pendingM6ids) AckBundleAction.undoPending
      d.actions.toList dbs.pendingM6ids).map (fun p => { dbs with pendingM6ids := p }) := by
  rw [← ActiveSidechainDbs.foldlM_withPendingWithdrawals]
  simp only [undo,AckBundleAction.undo_eq]

theorem undo_apply {d : AckBundles} {dbs dbs' : ActiveSidechainDbs} (hfit : d.Fits dbs)
    (h : d.apply dbs = .ok dbs') : d.undo dbs' = .ok dbs := by
  rw [apply_eq] at h
  cases hu : FinMap.updateEach (.db .pendingM6ids) (fun _ a p => a.applyPending p)
      d.actions.toList dbs.pendingM6ids with
  | error e => rw [hu] at h; cases h
  | ok m =>
    rw [hu] at h
    obtain rfl := Except.ok.inj h
    have hinv := FinMap.updateEach_inverse (g := AckBundleAction.undoPending)
      (FinMap.nodup_keys d.actions) hu ?_
    · rw [undo_eq,hinv]
      rfl
    · intro s a p q hm hp hq
      exact AckBundleAction.undoPending_applyPending (hfit s a p (FinMap.mem_toList.mp hm) hp) hq

end AckBundles

namespace FailedProposals

theorem undo_apply {d : FailedProposals} {dbs : ConsensusDbs}
    (h : ∀ id sc, d.proposals.get? id = some sc → dbs.proposalIdToSidechain.get? id = some sc) :
    d.undo (d.apply dbs) = dbs := by
  simp [undo,apply,FinMap.insertAll_eraseAll h]

end FailedProposals

namespace FailedM6ids

/-- The entries that a predicate marks as failed, with their positions. -/
def positionsFrom (bad : M6id × PendingM6idInfo → Bool) (l : List (M6id × PendingM6idInfo)) (idx : ℕ) :
    FailedPositions :=
  ((l.zipIdx idx).filter (fun e => bad e.1)).map (fun e => (e.2,e.1.1,e.1.2))

variable {bad : M6id × PendingM6idInfo → Bool}

theorem positionsFrom_cons (e : M6id × PendingM6idInfo) (l : List (M6id × PendingM6idInfo)) (idx : ℕ) :
    positionsFrom bad (e::l) idx =
      if bad e then (idx,e.1,e.2)::positionsFrom bad l (idx+1) else positionsFrom bad l (idx+1) := by
  by_cases h : bad e <;> simp [positionsFrom,h]

theorem le_of_mem_positionsFrom {l : List (M6id × PendingM6idInfo)} {idx : ℕ}
    {f : ℕ × M6id × PendingM6idInfo} (h : f ∈ positionsFrom bad l idx) : idx ≤ f.1 := by
  obtain ⟨⟨e,i⟩,hm,rfl⟩ := List.mem_map.mp h
  exact (List.mem_zipIdx (List.mem_filter.mp hm).1).1

theorem length_positionsFrom (l : List (M6id × PendingM6idInfo)) (idx : ℕ) :
    (positionsFrom bad l idx).length ≤ l.length := by
  simpa [positionsFrom] using List.length_filter_le (fun e => bad e.1) (l.zipIdx idx)

theorem removeLoop_keep {e : M6id × PendingM6idInfo} {l : List (M6id × PendingM6idInfo)}
    {failed : List ℕ} {idx : ℕ} {acc : PendingM6ids} (h : ∀ i ∈ failed, idx < i) :
    removeLoop (e::l) failed idx acc = removeLoop l failed (idx+1) (acc.insert e.1 e.2) := by
  cases failed with
  | nil => rw [removeLoop]
  | cons i failed =>
    have hi := h i (List.mem_cons_self ..)
    rw [removeLoop,if_neg (by omega)]

/-- Removal keeps exactly the entries that did not fail, in their order. -/
theorem removeLoop_entries (bad : M6id × PendingM6idInfo → Bool)
    (l : List (M6id × PendingM6idInfo)) (idx : ℕ) (acc : PendingM6ids)
    (hn : ((acc.entries++l).map Prod.fst).Nodup) :
    (removeLoop l ((positionsFrom bad l idx).map Prod.fst) idx acc).entries =
      acc.entries++l.filter (fun e => !bad e) := by
  induction l generalizing idx acc with
  | nil => simp [removeLoop]
  | cons e l ih =>
    rw [positionsFrom_cons]
    have hlt : ∀ i ∈ (positionsFrom bad l (idx+1)).map Prod.fst, idx < i := by
      intro i hi
      obtain ⟨f,hf,rfl⟩ := List.mem_map.mp hi
      exact le_of_mem_positionsFrom hf
    have hkey : e.1 ∉ acc.keys := by
      intro hk
      rw [List.map_append,List.map_cons,List.nodup_append] at hn
      exact hn.2.2 e.1 hk e.1 (List.mem_cons_self ..) rfl
    by_cases h : bad e
    · simp only [h,if_true,List.map_cons,removeLoop]
      rw [ih (idx+1) acc ?_]
      · simp [h]
      · refine hn.sublist (List.Sublist.map _ ?_)
        exact List.Sublist.append (List.Sublist.refl _) (List.sublist_cons_self _ _)
    · simp only [h,Bool.false_eq_true,if_false]
      rw [removeLoop_keep hlt,ih (idx+1) (acc.insert e.1 e.2) ?_]
      · simp [OrderMap.insert_of_not_mem _ hkey,h]
      · simpa [OrderMap.insert_of_not_mem _ hkey] using hn

/-- Refilling puts the failed entries back between the others. -/
theorem refillLoop_entries (bad : M6id × PendingM6idInfo → Bool)
    (l : List (M6id × PendingM6idInfo)) (idx : ℕ) (acc : PendingM6ids)
    (hn : ((acc.entries++l).map Prod.fst).Nodup) :
    (refillLoop (positionsFrom bad l idx) (l.filter (fun e => !bad e)) idx acc).entries =
      acc.entries++l := by
  induction l generalizing idx acc with
  | nil => simp [refillLoop,positionsFrom]
  | cons e l ih =>
    rw [positionsFrom_cons]
    have hkey : e.1 ∉ acc.keys := by
      intro hk
      rw [List.map_append,List.map_cons,List.nodup_append] at hn
      exact hn.2.2 e.1 hk e.1 (List.mem_cons_self ..) rfl
    have hrec := ih (idx+1) (acc.insert e.1 e.2) (by
      simpa [OrderMap.insert_of_not_mem _ hkey] using hn)
    rw [OrderMap.insert_of_not_mem _ hkey,List.append_assoc,List.singleton_append] at hrec
    by_cases h : bad e
    · simp only [h,if_true,List.filter_cons,Bool.not_true,Bool.false_eq_true,if_false]
      rw [refillLoop.eq_def]
      simpa using hrec
    · simp only [h,if_false,List.filter_cons,Bool.not_false,if_true,Bool.false_eq_true]
      cases hp : positionsFrom bad l (idx+1) with
      | nil =>
        rw [hp] at hrec
        rw [refillLoop]
        exact hrec
      | cons f failed =>
        obtain ⟨i,f⟩ := f
        have hi : idx+1 ≤ i := le_of_mem_positionsFrom (f := (i,f)) (by rw [hp]; simp)
        rw [hp] at hrec
        rw [refillLoop,if_neg (by omega)]
        exact hrec

/-- The failed positions were read off the pending bundles. -/
def Fits (d : FailedM6ids) (dbs : ActiveSidechainDbs) : Prop :=
  ∀ s f p, d.failed.get? s = some f → dbs.pendingM6ids.get? s = some p →
    ∃ bad, f = positionsFrom bad p.entries 0

theorem removeFailedWithdrawals_eq (bad : M6id × PendingM6idInfo → Bool) (p : PendingM6ids) :
    ∃ q, removeFailedWithdrawals (positionsFrom bad p.entries 0) p = .ok q ∧
      q.entries = p.entries.filter (fun e => !bad e) := by
  have hlen : ¬ p.len < (positionsFrom bad p.entries 0).length :=
    Nat.not_lt.mpr (length_positionsFrom p.entries 0)
  refine ⟨_,if_neg hlen,?_⟩
  simpa [OrderMap.empty] using removeLoop_entries bad p.entries 0 .empty
    (by simpa [OrderMap.empty] using p.nodup)

theorem refill_remove {bad : M6id × PendingM6idInfo → Bool} {p q : PendingM6ids}
    (h : removeFailedWithdrawals (positionsFrom bad p.entries 0) p = .ok q) :
    refillPendingWithdrawals (positionsFrom bad p.entries 0) q = p := by
  obtain ⟨q',hq',he⟩ := removeFailedWithdrawals_eq bad p
  obtain rfl := Except.ok.inj (h.symm.trans hq')
  apply OrderMap.ext
  rw [refillPendingWithdrawals,he]
  simpa [OrderMap.empty] using refillLoop_entries bad p.entries 0 .empty
    (by simpa [OrderMap.empty] using p.nodup)

theorem apply_eq (d : FailedM6ids) (dbs : ActiveSidechainDbs) :
    d.apply dbs = (FinMap.updateEach (.db .pendingM6ids) (fun _ f p => removeFailedWithdrawals f p)
      d.failed.toList dbs.pendingM6ids).map (fun p => { dbs with pendingM6ids := p }) := by
  rw [← ActiveSidechainDbs.foldlM_withPendingWithdrawals]
  rfl

theorem undo_eq (d : FailedM6ids) (dbs : ActiveSidechainDbs) :
    d.undo dbs = (FinMap.updateEach (.db .pendingM6ids)
      (fun _ f p => .ok (refillPendingWithdrawals f p))
      d.failed.toList dbs.pendingM6ids).map (fun p => { dbs with pendingM6ids := p }) := by
  rw [← ActiveSidechainDbs.foldlM_withPendingWithdrawals]
  rfl

theorem undo_apply {d : FailedM6ids} {dbs dbs' : ActiveSidechainDbs} (hfit : d.Fits dbs)
    (h : d.apply dbs = .ok dbs') : d.undo dbs' = .ok dbs := by
  rw [apply_eq] at h
  cases hu : FinMap.updateEach (.db .pendingM6ids) (fun _ f p => removeFailedWithdrawals f p)
      d.failed.toList dbs.pendingM6ids with
  | error e => rw [hu] at h; cases h
  | ok m =>
    rw [hu] at h
    obtain rfl := Except.ok.inj h
    have hinv := FinMap.updateEach_inverse
      (g := fun _ f p => .ok (refillPendingWithdrawals f p)) (FinMap.nodup_keys d.failed) hu ?_
    · rw [undo_eq,hinv]
      rfl
    · intro s f p q hm hp hq
      obtain ⟨bad,rfl⟩ := hfit s f p (FinMap.mem_toList.mp hm) hp
      rw [refill_remove hq]

end FailedM6ids

end Diff
end Bip300301Enforcer
