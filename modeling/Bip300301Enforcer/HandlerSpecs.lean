import Bip300301Enforcer.ConnectBlock
import Bip300301Enforcer.DiffUndo

/-! What each coinbase message does to the tables. This is said once, and every
invariant of the coinbase phase is derived from it. -/
namespace Bip300301Enforcer
open Lib

namespace Diff

namespace AckBundleAction

def Applies (a : AckBundleAction) (p : PendingM6ids) : Prop :=
  match a with
  | .alarm positive => positive = positiveVotesProposalsForAlarm p
  | .upvote m6id others => others = downvotedOthersForUpvote p m6id ∧
      ∃ info, p.get? m6id = some info ∧ info.voteCount ≠ 0xFFFF

theorem Applies.fits {a : AckBundleAction} {p : PendingM6ids} (h : a.Applies p) : a.Fits p := by
  cases a with
  | alarm positive => exact h
  | upvote m6id others =>
    obtain ⟨hothers,info,hinfo,-⟩ := h
    exact ⟨OrderMap.contains_iff.mp (by simp [OrderMap.contains,hinfo]),hothers⟩

end AckBundleAction

/-- Every action was made for the pending bundles of its slot. -/
def AckBundles.Made (d : AckBundles) (dbs : ActiveSidechainDbs) : Prop :=
  ∀ s a, d.actions.get? s = some a → ∃ p, dbs.pendingM6ids.get? s = some p ∧ a.Applies p

theorem AckBundles.Made.fits {d : AckBundles} {dbs : ActiveSidechainDbs} (h : d.Made dbs) :
    d.Fits dbs := by
  intro s a p hs hp
  obtain ⟨q,hq,ha⟩ := h s a hs
  obtain rfl := Option.some.inj (hp.symm.trans hq)
  exact ha.fits

theorem AckBundles.made_default (dbs : ActiveSidechainDbs) : AckBundles.default.Made dbs := by
  intro s a hs
  simp [AckBundles.default] at hs

end Diff

namespace BlockHandler

section Votes

variable {dbs : ConsensusDbs} {d d' : Diff.AckBundles} {s : SidechainNumber} {p : PendingM6ids}

theorem made_insert {a : Diff.AckBundleAction} (hd : d.Made dbs.activeSidechains)
    (hp : dbs.activeSidechains.pendingM6ids.get? s = some p) (ha : a.Applies p) :
    Diff.AckBundles.Made ⟨d.actions.insert s a⟩ dbs.activeSidechains := by
  intro s' a' hs
  rw [FinMap.get?_insert] at hs
  by_cases he : s = s'
  · subst he
    rw [if_pos rfl] at hs
    obtain rfl := Option.some.inj hs
    exact ⟨p,hp,ha⟩
  · rw [if_neg he] at hs
    exact hd s' a' hs

theorem made_insertAlarm (hd : d.Made dbs.activeSidechains)
    (hp : dbs.activeSidechains.pendingM6ids.get? s = some p) :
    (insertAlarm d s p).Made dbs.activeSidechains := by
  unfold insertAlarm
  by_cases he : (positiveVotesProposalsForAlarm p).isEmpty = true
  · simpa [he] using hd
  · simpa [he] using made_insert (a := .alarm _) hd hp rfl

theorem made_insertUpvote {target : M6id} {info : PendingM6idInfo} (hd : d.Made dbs.activeSidechains)
    (hp : dbs.activeSidechains.pendingM6ids.get? s = some p) (hi : p.get? target = some info)
    (hv : info.voteCount ≠ 0xFFFF) : (insertUpvote d s p target).Made dbs.activeSidechains :=
  made_insert hd hp ⟨rfl,info,hi,hv⟩

theorem ne_max_of_lt {v : UInt16} (h : v < 0xFFFF) : v ≠ 0xFFFF := by
  rintro rfl
  exact absurd h (by decide)

theorem made_handleM4Vote {e : SidechainNumber × UInt16} (hd : d.Made dbs.activeSidechains)
    (h : handleM4Vote dbs d e = .ok d') : d'.Made dbs.activeSidechains := by
  unfold handleM4Vote at h
  by_cases habs : e.2 = M4AckBundles.abstainTwoBytes
  · rw [if_pos habs] at h
    obtain rfl := Except.ok.inj h
    exact hd
  · rw [if_neg habs] at h
    obtain ⟨p,hp,h⟩ := Fallible.bind_ok.mp h
    rw [Database.get_ok] at hp
    by_cases hal : e.2 = M4AckBundles.alarmTwoBytes
    · rw [if_pos hal,Fallible.pure_ok] at h
      subst h
      exact made_insertAlarm hd hp
    · rw [if_neg hal] at h
      obtain ⟨⟨m6id,info⟩,hget,h⟩ := Fallible.bind_ok.mp h
      rw [Fallible.require_ok] at hget
      rw [Fallible.pure_ok] at h
      subst h
      have hinfo : p.get? m6id = some info := OrderMap.mem_entries.mp (List.mem_of_getElem? hget)
      by_cases hlt : info.voteCount < 0xFFFF
      · rw [if_pos hlt]
        exact made_insertUpvote hd hp hinfo (ne_max_of_lt hlt)
      · rw [if_neg hlt]
        exact hd

theorem made_handleM4Votes {upvotes : List UInt16} (h : handleM4Votes dbs upvotes = .ok d) :
    d.Made dbs.activeSidechains := by
  obtain ⟨_,-,h⟩ := Fallible.bind_ok.mp h
  exact Fallible.foldlM_invariant (fun d => d.Made dbs.activeSidechains) h
    (Diff.AckBundles.made_default _) (fun e t t' _ ht hs => made_handleM4Vote ht hs)

theorem leader_some {m6id : M6id} (h : leader p = some m6id) :
    ∃ info, p.get? m6id = some info ∧ info.voteCount ≠ 0xFFFF := by
  unfold leader at h
  have hperm := List.perm_insertionSort (fun a b : M6id × UInt16 => b.2 ≤ a.2)
    (p.entries.map (fun e => (e.1,e.2.voteCount)))
  cases hs : (p.entries.map (fun e => (e.1,e.2.voteCount))).insertionSort
      (fun a b : M6id × UInt16 => b.2 ≤ a.2) with
  | nil => simp [hs] at h
  | cons e rest =>
    obtain ⟨k,lead⟩ := e
    simp only [hs] at h
    split at h
    · rename_i hc
      obtain rfl := Option.some.inj h
      have hmem : (k,lead) ∈ p.entries.map (fun e => (e.1,e.2.voteCount)) :=
        hperm.subset (by simp [hs])
      obtain ⟨⟨a,info⟩,hm,he⟩ := List.mem_map.mp hmem
      obtain ⟨rfl,rfl⟩ := Prod.mk.inj he
      simp only [Bool.and_eq_true,decide_eq_true_eq] at hc
      exact ⟨info,OrderMap.mem_entries.mp hm,ne_max_of_lt hc.2⟩
    · cases h

theorem made_handleM4LeadingBy50 (h : handleM4LeadingBy50 dbs = .ok d) :
    d.Made dbs.activeSidechains := by
  refine Fallible.foldlM_invariant (fun d => d.Made dbs.activeSidechains) h
    (Diff.AckBundles.made_default _) ?_
  intro s t t' _ ht hs
  obtain ⟨p,hp,hs⟩ := Fallible.bind_ok.mp hs
  rw [Database.get_ok] at hp
  rw [Fallible.pure_ok] at hs
  subst hs
  cases hl : leader p with
  | none => exact ht
  | some m6id =>
    obtain ⟨info,hinfo,hv⟩ := leader_some hl
    exact made_insertUpvote ht hp hinfo hv

theorem made_repeatAction {e : SidechainNumber × Diff.AckBundleAction}
    (hd : d.Made dbs.activeSidechains) (h : repeatAction dbs d e = .ok d') :
    d'.Made dbs.activeSidechains := by
  obtain ⟨s,a⟩ := e
  obtain ⟨p,hp,h⟩ := Fallible.bind_ok.mp h
  rw [Database.get_ok] at hp
  cases a with
  | alarm positive =>
    simp only [Fallible.pure_ok] at h
    subst h
    exact made_insertAlarm hd hp
  | upvote target others =>
    cases hi : p.get? target with
    | none =>
      simp only [hi,Fallible.pure_ok] at h
      subst h
      exact hd
    | some info =>
      simp only [hi,Fallible.pure_ok] at h
      subst h
      by_cases hv : info.voteCount = 0xFFFF
      · rw [if_pos hv]
        exact hd
      · rw [if_neg hv]
        exact made_insertUpvote hd hp hi hv

theorem made_handleM4RepeatPrevious {prevBlockHash : BlockHash} {prevDiff : Option Diff.Block}
    (h : handleM4RepeatPrevious dbs prevBlockHash prevDiff = .ok d) :
    d.Made dbs.activeSidechains := by
  unfold handleM4RepeatPrevious at h
  by_cases hz : prevBlockHash = allZeros
  · rw [if_pos hz] at h
    obtain rfl := Except.ok.inj h
    exact Diff.AckBundles.made_default _
  · rw [if_neg hz] at h
    obtain ⟨prev,-,h⟩ := Fallible.bind_ok.mp h
    cases ha : ackBundlesOf prev with
    | none =>
      simp only [ha,Fallible.pure_ok] at h
      subst h
      exact Diff.AckBundles.made_default _
    | some ab =>
      simp only [ha] at h
      exact Fallible.foldlM_invariant (fun d => d.Made dbs.activeSidechains) h
        (Diff.AckBundles.made_default _) (fun e t t' _ ht hs => made_repeatAction ht hs)

theorem made_handleM4AckBundles {prevBlockHash : BlockHash} {prevDiff : Option Diff.Block}
    {m4 : M4AckBundles} (h : handleM4AckBundles dbs prevBlockHash prevDiff m4 = .ok d) :
    d.Made dbs.activeSidechains := by
  cases m4 with
  | repeatPrevious => exact made_handleM4RepeatPrevious h
  | oneByte upvotes => exact made_handleM4Votes h
  | leadingBy50 => exact made_handleM4LeadingBy50 h
  | twoBytes upvotes =>
    simp only [handleM4AckBundles] at h
    split at h
    · cases h
    · exact made_handleM4Votes h

end Votes

variable [Bitcoin] (h : BlockHandler)

def ackEffect (existing : Option Sidechain) (votes : UInt16) (age : ℕ) : Diff.Effect :=
  if h.newSidechainActivated existing.isSome votes age then
    match existing with
    | some replaced => .replaceActive replaced
    | none => .slotActivation
  else .noActivation

/-- The diff that each message leads to, given the tables that it is read on. -/
inductive Handled (dbs : ConsensusDbs) (height : ℕ) (parent : BlockHash)
    (prevDiff : Option Diff.Block) :
    CoinbaseMessage → Option CoinbaseMessageEvent → Option Diff.CoinbaseMsg → Prop
  | m1Known {s : SidechainNumber} {description : List UInt8} {sc : Sidechain}
      (known : dbs.proposalIdToSidechain.get? ⟨s,sha256d description⟩ = some sc) :
      Handled dbs height parent prevDiff (.m1ProposeSidechain s description) none none
  | m1New {s : SidechainNumber} {description : List UInt8}
      (new : dbs.proposalIdToSidechain.get? ⟨s,sha256d description⟩ = none) :
      Handled dbs height parent prevDiff (.m1ProposeSidechain s description)
        (some (.newSidechainProposal ⟨⟨s,description⟩,⟨0,height,none⟩⟩))
        (some (.newSidechainProposal ⟨⟨s,sha256d description⟩,⟨⟨s,description⟩,⟨0,height,none⟩⟩⟩))
  | m2Unknown {s : SidechainNumber} {dh : DescriptionHash}
      (unknown : dbs.proposalIdToSidechain.get? ⟨s,dh⟩ = none) :
      Handled dbs height parent prevDiff (.m2AckSidechain s dh) none none
  | m2SameBlock {s : SidechainNumber} {dh : DescriptionHash} {sc : Sidechain}
      (pending : dbs.proposalIdToSidechain.get? ⟨s,dh⟩ = some sc)
      (same : height = sc.status.proposalHeight) :
      Handled dbs height parent prevDiff (.m2AckSidechain s dh) none none
  | m2 {s : SidechainNumber} {dh : DescriptionHash} {sc : Sidechain}
      (pending : dbs.proposalIdToSidechain.get? ⟨s,dh⟩ = some sc)
      (earlier : height ≠ sc.status.proposalHeight) (votes : sc.status.voteCount ≠ 0xFFFF) :
      Handled dbs height parent prevDiff (.m2AckSidechain s dh) none
        (some (.ackSidechainProposal ⟨⟨s,dh⟩,h.ackEffect (dbs.activeSidechains.sidechain.get? s)
          (sc.status.voteCount+1) (height-sc.status.proposalHeight)⟩))
  | m3 {s : SidechainNumber} {m6id : M6id} {p : PendingM6ids}
      (active : dbs.activeSidechains.sidechain.contains s = true)
      (pending : dbs.activeSidechains.pendingM6ids.get? s = some p) (new : m6id ∉ p.keys) :
      Handled dbs height parent prevDiff (.m3ProposeBundle s m6id)
        (some (.withdrawalBundle ⟨s,m6id,.submitted⟩)) (some (.proposeBundle ⟨s,m6id⟩))
  | m4 {m4 : M4AckBundles} {d : Diff.AckBundles}
      (votes : handleM4AckBundles dbs parent prevDiff m4 = .ok d) :
      Handled dbs height parent prevDiff (.m4AckBundles m4) none
        (if d.actions.isEmpty then none else some (.ackBundles d))
  | m7 {s : SidechainNumber} {commitment : BmmCommitment} :
      Handled dbs height parent prevDiff (.m7BmmAccept s commitment) none none

variable {h} {dbs : ConsensusDbs} {height : ℕ} {parent : BlockHash} {prevDiff : Option Diff.Block}

theorem handled_m2 {s : SidechainNumber} {dh : DescriptionHash}
    {d : Option Diff.AckSidechainProposal} (hm : h.handleM2AckSidechain dbs height s dh = .ok d) :
    Handled h dbs height parent prevDiff (.m2AckSidechain s dh) none
      (d.map .ackSidechainProposal) := by
  unfold handleM2AckSidechain at hm
  cases hp : dbs.proposalIdToSidechain.get? ⟨s,dh⟩ with
  | none =>
    simp only [hp,Except.ok.injEq] at hm
    subst hm
    exact .m2Unknown hp
  | some sc =>
    simp only [hp] at hm
    by_cases hh : height = sc.status.proposalHeight
    · rw [if_pos hh] at hm
      obtain rfl := Except.ok.inj hm
      exact .m2SameBlock hp hh
    · rw [if_neg hh] at hm
      obtain ⟨votes,hv,hm⟩ := Fallible.bind_ok.mp hm
      obtain ⟨hmax,rfl⟩ := incrementVotes_ok.mp hv
      rw [Fallible.pure_ok] at hm
      subst hm
      exact .m2 hp hh hmax

theorem handled_m3 {s : SidechainNumber} {m6id : M6id} {d : Diff.ProposeBundle}
    (hm : handleM3ProposeBundle dbs s m6id = .ok d) :
    Handled h dbs height parent prevDiff (.m3ProposeBundle s m6id)
      (some (.withdrawalBundle ⟨s,m6id,.submitted⟩)) (some (.proposeBundle d)) := by
  simp only [handleM3ProposeBundle,Fallible.bind_ok,Fallible.ensure_ok,Database.get_ok,
    Fallible.pure_ok] at hm
  obtain ⟨_,hact,p,hp,_,hnew,rfl⟩ := hm
  refine .m3 hact hp ?_
  intro hk
  simp [OrderMap.contains_iff.mpr hk] at hnew

/-- Every accepted message is handled in one of these ways. -/
theorem handled_of_handle {accepted accepted' : BmmCommitments} {msg : CoinbaseMessage}
    {e : Option CoinbaseMessageEvent} {d : Option Diff.CoinbaseMsg}
    (hm : h.handleCoinbaseMessage dbs height parent prevDiff accepted msg = .ok (e,d,accepted')) :
    Handled h dbs height parent prevDiff msg e d := by
  cases msg with
  | m1ProposeSidechain s description =>
    simp only [handleCoinbaseMessage,handleM1ProposeSidechain,SidechainProposal.computeId] at hm
    cases hp : dbs.proposalIdToSidechain.get? ⟨s,sha256d description⟩ with
    | none =>
      simp only [FinMap.contains,hp,Option.isSome_none,Bool.false_eq_true,if_false,Except.ok.injEq,
        Prod.mk.injEq] at hm
      obtain ⟨rfl,rfl,-⟩ := hm
      exact .m1New hp
    | some sc =>
      simp only [FinMap.contains,hp,Option.isSome_some,if_true,Except.ok.injEq,Prod.mk.injEq] at hm
      obtain ⟨rfl,rfl,-⟩ := hm
      exact .m1Known hp
  | m2AckSidechain s dh =>
    simp only [handleCoinbaseMessage,Fallible.bind_ok,Fallible.pure_ok,Prod.mk.injEq] at hm
    obtain ⟨d,hd,rfl,rfl,-⟩ := hm
    exact handled_m2 hd
  | m3ProposeBundle s m6id =>
    simp only [handleCoinbaseMessage,Fallible.bind_ok,Fallible.pure_ok,Prod.mk.injEq] at hm
    obtain ⟨d,hd,rfl,rfl,-⟩ := hm
    exact handled_m3 hd
  | m4AckBundles m4 =>
    simp only [handleCoinbaseMessage,Fallible.bind_ok,Fallible.pure_ok,Prod.mk.injEq] at hm
    obtain ⟨d,hd,rfl,rfl,-⟩ := hm
    exact .m4 hd
  | m7BmmAccept s commitment =>
    simp only [handleCoinbaseMessage] at hm
    split at hm
    · cases hm
    · simp only [Except.ok.injEq,Prod.mk.injEq] at hm
      obtain ⟨rfl,rfl,-⟩ := hm
      exact .m7

end BlockHandler
end Bip300301Enforcer
