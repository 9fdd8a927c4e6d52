import Bip300301Enforcer.VoteSafety

/-! The rule for votes on bundles, and that the `M4` messages follow it. The resolver
records which bundles an action changes, and the diff changes them when it is applied. -/
namespace Bip300301Enforcer
open Lib Chain BlockHandler PendingM6ids
open Fallible (FailsOnly)

/-- A vote on the bundles of one slot. -/
inductive BundleVote
  | upvote (m6id : M6id)
  | alarm
  | abstain
deriving DecidableEq

namespace BundleVote

def count (vote : BundleVote) (m6id : M6id) (votes : ℕ) : ℕ :=
  match vote with
  | .upvote target => if m6id = target then votes+1 else votes-1
  | .alarm => votes-1
  | .abstain => votes

/-- The pending bundles of a slot before and after a vote. Their order, ids and heights
stay the same. -/
structure Follows (vote : BundleVote) (p q : PendingM6ids) : Prop where
  keys : q.keys = p.keys
  votes : ∀ m6id info, p.get? m6id = some info → ∃ info', q.get? m6id = some info' ∧
    info'.proposalHeight = info.proposalHeight ∧
    info'.voteCount.toNat = vote.count m6id info.voteCount.toNat

/-- The vote that a two-byte code stands for, if its index is a position. -/
def ofCode (p : PendingM6ids) (code : UInt16) : Option BundleVote :=
  if code = M4AckBundles.abstainTwoBytes then some .abstain
  else if code = M4AckBundles.alarmTwoBytes then some .alarm
  else p.keys[code.toNat]?.map .upvote

/-- The bundle has at least 50 votes, and at least 50 more than each other. -/
def Leads (p : PendingM6ids) (m6id : M6id) : Prop :=
  ∃ info, p.get? m6id = some info ∧ 50 ≤ info.voteCount.toNat ∧
    ∀ other info', other ≠ m6id → p.get? other = some info' →
      info'.voteCount.toNat+50 ≤ info.voteCount.toNat

end BundleVote

namespace BlockHandler
open Diff

section Actions

variable {t : ConsensusDbs}

def readCodes : M4AckBundles → Option (List UInt16)
  | .oneByte upvotes => some (upvotes.map widenVote)
  | .twoBytes upvotes => some upvotes
  | _ => none

def voteAction (p : PendingM6ids) (v : UInt16) : Option AckBundleAction :=
  if v = M4AckBundles.abstainTwoBytes then none
  else if v = M4AckBundles.alarmTwoBytes then
    if (positiveVotesProposalsForAlarm p).isEmpty then none
    else some (.alarm (positiveVotesProposalsForAlarm p))
  else (p.getIndex v.toNat).bind (fun e =>
    if e.2.voteCount < 0xFFFF then some (.upvote e.1 (downvotedOthersForUpvote p e.1)) else none)

/-- A vote adds its action for its slot, and nothing for other slots. -/
theorem handleM4Vote_action {d d' : AckBundles} {s : SidechainNumber} {v : UInt16}
    (hv : handleM4Vote t d (s,v) = .ok d') (hnone : d.actions.get? s = none) :
    (∀ s', s' ≠ s → d'.actions.get? s' = d.actions.get? s') ∧
      ∀ p, t.activeSidechains.pendingM6ids.get? s = some p →
        d'.actions.get? s = voteAction p v := by
  unfold handleM4Vote at hv
  simp only at hv
  split at hv
  · rename_i habs
    obtain rfl := Except.ok.inj hv
    exact ⟨fun _ _ => rfl,fun p _ => by rw [voteAction,if_pos habs,hnone]⟩
  · rename_i habs
    obtain ⟨p,hp,hv⟩ := Fallible.bind_ok.mp hv
    rw [Database.get_ok] at hp
    split at hv
    · rename_i halarm
      rw [Fallible.pure_ok] at hv
      subst hv
      refine ⟨fun s' hs' => ?_,fun p' hp' => ?_⟩
      · simp only [insertAlarm]
        split
        · rfl
        · exact FinMap.get?_insert_ne _ _ hs'.symm
      · obtain rfl := Option.some.inj (hp.symm.trans hp')
        rw [voteAction,if_neg habs,if_pos halarm]
        simp only [insertAlarm]
        split
        · exact hnone
        · exact FinMap.get?_insert_self _ _ _
    · rename_i halarm
      obtain ⟨⟨m6id,info⟩,hi,hv⟩ := Fallible.bind_ok.mp hv
      rw [Fallible.require_ok] at hi
      rw [Fallible.pure_ok] at hv
      subst hv
      refine ⟨fun s' hs' => ?_,fun p' hp' => ?_⟩
      · split
        · exact FinMap.get?_insert_ne _ _ hs'.symm
        · rfl
      · obtain rfl := Option.some.inj (hp.symm.trans hp')
        simp only [voteAction,if_neg habs,if_neg halarm,hi,Option.bind_some]
        split
        · exact FinMap.get?_insert_self _ _ _
        · exact hnone

/-- Every slot gets the action of its own vote. -/
theorem handleM4Votes_actions {upvotes : List UInt16} {d : AckBundles}
    (hv : handleM4Votes t upvotes = .ok d) :
    ∀ e ∈ t.activeSidechains.numbers.zip upvotes, ∀ p,
      t.activeSidechains.pendingM6ids.get? e.1 = some p → d.actions.get? e.1 = voteAction p e.2 := by
  obtain ⟨_,hlen,hv⟩ := Fallible.bind_ok.mp hv
  have hlen : t.activeSidechains.numbers.length ≤ upvotes.length := by simp at hlen; omega
  have hnodup : ((t.activeSidechains.numbers.zip upvotes).map Prod.fst).Nodup := by
    rw [List.map_fst_zip hlen]
    exact FinMap.nodup_keys _
  have hspec := Fallible.foldlM_prefix (fun done (d : AckBundles) =>
    (∀ s, s ∉ done.map Prod.fst → d.actions.get? s = none) ∧
    ∀ e ∈ done, ∀ p, t.activeSidechains.pendingM6ids.get? e.1 = some p →
      d.actions.get? e.1 = voteAction p e.2) hv ?_ ?_
  · exact hspec.2
  · exact ⟨fun s _ => FinMap.get?_empty s,fun e he => absurd he (by simp)⟩
  · rintro done ⟨s,v⟩ rest d d' hl ⟨hnone,hI⟩ hstep
    have hs : s ∉ done.map Prod.fst := by
      rw [hl,List.map_append,List.map_cons] at hnodup
      intro hm
      exact (List.nodup_append.mp hnodup).2.2 s hm s (List.mem_cons_self ..) rfl
    obtain ⟨hother,hself⟩ := handleM4Vote_action hstep (hnone s hs)
    refine ⟨fun s' hs' => ?_,fun e he p hp => ?_⟩
    · simp only [List.map_append,List.map_cons,List.map_nil,List.mem_append,List.mem_singleton,
        not_or] at hs'
      rw [hother s' hs'.2]
      exact hnone s' hs'.1
    · rcases List.mem_append.mp he with hdone | hlast
      · have hne : e.1 ≠ s := fun heq => hs (heq ▸ List.mem_map_of_mem hdone)
        rw [hother e.1 hne]
        exact hI e hdone p hp
      · obtain rfl := List.mem_singleton.mp hlast
        exact hself p hp

/-- `LeadingBy50` upvotes the leader of each slot. -/
theorem handleM4LeadingBy50_actions {d : AckBundles} (hd : handleM4LeadingBy50 t = .ok d) :
    ∀ s ∈ t.activeSidechains.numbers, ∀ p, t.activeSidechains.pendingM6ids.get? s = some p →
      d.actions.get? s =
        (leader p).map (fun m6id => .upvote m6id (downvotedOthersForUpvote p m6id)) := by
  have hnodup : t.activeSidechains.numbers.Nodup := FinMap.nodup_keys _
  have hspec := Fallible.foldlM_prefix (fun done (d : AckBundles) =>
    (∀ s, s ∉ done → d.actions.get? s = none) ∧
    ∀ s ∈ done, ∀ p, t.activeSidechains.pendingM6ids.get? s = some p → d.actions.get? s =
      (leader p).map (fun m6id => .upvote m6id (downvotedOthersForUpvote p m6id))) hd ?_ ?_
  · exact hspec.2
  · exact ⟨fun s _ => FinMap.get?_empty s,fun s hs => absurd hs (by simp)⟩
  · rintro done s rest d d' hl ⟨hnone,hI⟩ hstep
    have hs : s ∉ done := by
      rw [hl] at hnodup
      intro hm
      exact (List.nodup_append.mp hnodup).2.2 s hm s (List.mem_cons_self ..) rfl
    obtain ⟨p,hp,hstep⟩ := Fallible.bind_ok.mp hstep
    rw [Database.get_ok] at hp
    rw [Fallible.pure_ok] at hstep
    have hget : ∀ s', d'.actions.get? s' = if s' = s then
        (leader p).map (fun m6id => .upvote m6id (downvotedOthersForUpvote p m6id))
        else d.actions.get? s' := by
      intro s'
      rw [← hstep]
      cases hlead : leader p with
      | none =>
        by_cases he : s' = s
        · rw [he,if_pos rfl]
          exact hnone s hs
        · rw [if_neg he]
      | some m6id =>
        show (d.actions.insert s (.upvote m6id (downvotedOthersForUpvote p m6id))).get? s' = _
        rw [FinMap.get?_insert]
        by_cases he : s' = s
        · rw [if_pos he.symm,if_pos he]
          rfl
        · rw [if_neg (Ne.symm he),if_neg he]
    refine ⟨fun s' hs' => ?_,fun s' hs' p' hp' => ?_⟩
    · rw [List.mem_append,List.mem_singleton,not_or] at hs'
      rw [hget,if_neg hs'.2]
      exact hnone s' hs'.1
    · rw [hget]
      split
      · rename_i he
        rw [he] at hp'
        obtain rfl := Option.some.inj (hp.symm.trans hp')
        rfl
      · rename_i he
        rw [List.mem_append,List.mem_singleton] at hs'
        exact hI s' (hs'.resolve_right he) p' hp'

end Actions

section Leader

def leaderOf (byVotes : List (M6id × UInt16)) : Option M6id :=
  match byVotes with
  | [] => none
  | (m6id,lead)::rest =>
    let second := (rest.head?.map Prod.snd).getD 0
    if leadingBy50Margin ≤ lead.toNat-second.toNat && lead < 0xFFFF then some m6id else none

/-- The bundles of a slot with their votes, the most votes first. Bundles with the same
votes come in any order. -/
structure SortedByVotes (p : PendingM6ids) (byVotes : List (M6id × UInt16)) : Prop where
  perm : byVotes.Perm (p.entries.map (fun e => (e.1,e.2.voteCount)))
  sorted : byVotes.Pairwise (fun a b => b.2 ≤ a.2)

theorem leader_eq (p : PendingM6ids) :
    ∃ byVotes, SortedByVotes p byVotes ∧ leader p = leaderOf byVotes := by
  refine ⟨_,⟨List.perm_insertionSort _ _,?_⟩,rfl⟩
  exact List.pairwise_insertionSort _ _

variable {p : PendingM6ids} {byVotes : List (M6id × UInt16)}

theorem SortedByVotes.mem (h : SortedByVotes p byVotes) {m6id : M6id} {votes : UInt16} :
    (m6id,votes) ∈ byVotes ↔ ∃ info, p.get? m6id = some info ∧ info.voteCount = votes := by
  rw [h.perm.mem_iff,List.mem_map]
  constructor
  · rintro ⟨⟨m,info⟩,hm,he⟩
    obtain ⟨rfl,rfl⟩ := Prod.mk.inj he
    exact ⟨info,OrderMap.mem_entries.mp hm,rfl⟩
  · rintro ⟨info,hi,rfl⟩
    exact ⟨(m6id,info),OrderMap.mem_entries.mpr hi,rfl⟩

theorem SortedByVotes.nodup (h : SortedByVotes p byVotes) : (byVotes.map Prod.fst).Nodup := by
  have hperm := h.perm.map Prod.fst
  rw [List.map_map] at hperm
  exact hperm.nodup_iff.mpr p.nodup

/-- The leader does not depend on how equal votes are sorted. -/
theorem leaderOf_eq_some (h : SortedByVotes p byVotes)
    (hlow : ∀ m6id info, p.get? m6id = some info → info.voteCount < 0xFFFF) (m6id : M6id) :
    leaderOf byVotes = some m6id ↔ BundleVote.Leads p m6id := by
  cases byVotes with
  | nil =>
    constructor
    · intro he
      cases he
    · rintro ⟨info,hi,-⟩
      exact absurd (h.mem.mpr ⟨info,hi,rfl⟩) (by simp)
  | cons first rest =>
    obtain ⟨m,lead⟩ := first
    obtain ⟨info,hi,hlead⟩ := h.mem.mp (List.mem_cons_self ..)
    have hsorted := List.pairwise_cons.mp h.sorted
    have hnodup := h.nodup
    rw [List.map_cons,List.nodup_cons] at hnodup
    have hmax : lead < 0xFFFF := hlead ▸ hlow m info hi
    have hsecond : ∀ e ∈ rest, e.2 ≤ (rest.head?.map Prod.snd).getD 0 := by
      intro e he
      cases rest with
      | nil => cases he
      | cons e' rest =>
        rcases List.mem_cons.mp he with rfl | he
        · exact UInt16.le_refl _
        · exact (List.pairwise_cons.mp hsorted.2).1 e he
    have hif : leaderOf ((m,lead)::rest) = if
        50 ≤ lead.toNat-((rest.head?.map Prod.snd).getD 0).toNat then some m else none := by
      simp only [leaderOf,leadingBy50Margin,hmax,decide_true,Bool.and_true]
      exact if_congr decide_eq_true_iff rfl rfl
    rw [hif]
    constructor
    · intro he
      split at he
      · rename_i hle
        obtain rfl := Option.some.inj he
        refine ⟨info,hi,by rw [hlead]; omega,?_⟩
        intro other info' hne hi'
        rcases List.mem_cons.mp (h.mem.mpr ⟨info',hi',rfl⟩) with he' | hm
        · exact absurd (Prod.mk.inj he').1 hne
        · have hle' := UInt16.le_iff_toNat_le.mp (hsecond _ hm)
          rw [hlead]
          simp only at hle'
          omega
      · cases he
    · rintro ⟨info',hi',hfifty,hothers⟩
      obtain rfl : m6id = m := by
        by_contra hne
        have hm := h.mem.mpr ⟨info',hi',rfl⟩
        have hle : info'.voteCount ≤ lead := by
          rcases List.mem_cons.mp hm with he | hm
          · exact absurd (Prod.mk.inj he).1 hne
          · exact hsorted.1 _ hm
        have := UInt16.le_iff_toNat_le.mp hle
        have := hothers m info (Ne.symm hne) hi
        rw [hlead] at this
        omega
      obtain rfl := Option.some.inj (hi.symm.trans hi')
      rw [hlead] at hfifty hothers
      rw [if_pos]
      cases rest with
      | nil => simpa using hfifty
      | cons e rest =>
        obtain ⟨info₂,hi₂,he₂⟩ := h.mem.mp (List.mem_cons_of_mem _ (List.mem_cons_self ..) :
          (e.1,e.2) ∈ (m6id,lead)::e::rest)
        have hne : e.1 ≠ m6id := fun heq => hnodup.1 (by simp [← heq])
        have := hothers e.1 info₂ hne hi₂
        rw [he₂] at this
        simp only [List.head?_cons,Option.map_some,Option.getD_some]
        omega

end Leader

end BlockHandler

namespace BundleVote
open Diff

variable {p q : PendingM6ids}

theorem follows_refl {vote : BundleVote}
    (h : ∀ m6id info, p.get? m6id = some info →
      vote.count m6id info.voteCount.toNat = info.voteCount.toNat) : vote.Follows p p :=
  ⟨rfl,fun m6id info hi => ⟨info,hi,rfl,(h m6id info hi).symm⟩⟩

theorem follows_mapVals {vote : BundleVote} {f : M6id → PendingM6idInfo → PendingM6idInfo}
    (h : ∀ m6id info, p.get? m6id = some info → (f m6id info).proposalHeight = info.proposalHeight ∧
      (f m6id info).voteCount.toNat = vote.count m6id info.voteCount.toNat) :
    vote.Follows p (p.mapVals f) := by
  refine ⟨OrderMap.keys_mapVals p f,fun m6id info hi => ⟨f m6id info,?_,h m6id info hi⟩⟩
  rw [OrderMap.get?_mapVals,hi,Option.map_some]

def Leaves (action : Option AckBundleAction) (p q : PendingM6ids) : Prop :=
  match action with
  | none => q = p
  | some a => a.applyPending p = .ok q

theorem follows_alarm (h : Leaves (if (positiveVotesProposalsForAlarm p).isEmpty then none
      else some (.alarm (positiveVotesProposalsForAlarm p))) p q) : alarm.Follows p q := by
  split at h
  · rename_i hnil
    obtain rfl := h
    refine follows_refl (fun m6id info hi => ?_)
    have hz : info.voteCount = 0 := by
      by_contra hne
      have hm := (AckBundleAction.mem_positiveVotes hi).mpr hne
      rw [List.isEmpty_iff.mp hnil] at hm
      cases hm
    rw [hz]
    rfl
  · obtain rfl := Except.ok.inj h
    exact follows_mapVals (fun m6id info _ => ⟨downvote_proposalHeight info,toNat_downvote info⟩)

theorem follows_upvote {m6id : M6id}
    (h : Leaves (some (.upvote m6id (downvotedOthersForUpvote p m6id))) p q) :
    (upvote m6id).Follows p q := by
  obtain ⟨f,rfl,hf⟩ := upvotePending_votes h
  exact follows_mapVals hf

/-- The action of a code follows the vote that the code stands for. -/
theorem follows_voteAction {vote : BundleVote} {code : UInt16}
    (hlow : ∀ m6id info, p.get? m6id = some info → info.voteCount < 0xFFFF)
    (hcode : ofCode p code = some vote) (h : Leaves (voteAction p code) p q) :
    vote.Follows p q := by
  unfold ofCode at hcode
  unfold voteAction at h
  split at hcode
  · rename_i habs
    rw [if_pos habs] at h
    obtain rfl := Option.some.inj hcode
    obtain rfl := h
    exact follows_refl (fun _ _ _ => rfl)
  · rename_i habs
    rw [if_neg habs] at h
    split at hcode
    · rename_i halarm
      rw [if_pos halarm] at h
      obtain rfl := Option.some.inj hcode
      exact follows_alarm h
    · rename_i halarm
      rw [if_neg halarm] at h
      obtain ⟨m6id,hkey,rfl⟩ := Option.map_eq_some_iff.mp hcode
      rw [OrderMap.keys,List.getElem?_map] at hkey
      obtain ⟨⟨m,info⟩,hentry,rfl⟩ := Option.map_eq_some_iff.mp hkey
      have hi : p.get? m = some info := OrderMap.mem_entries.mp (List.mem_of_getElem? hentry)
      rw [OrderMap.getIndex,hentry,Option.bind_some,if_pos (hlow m info hi)] at h
      exact follows_upvote h

theorem follows_leader
    (hlow : ∀ m6id info, p.get? m6id = some info → info.voteCount < 0xFFFF)
    (h : Leaves ((leader p).map (fun m6id => .upvote m6id (downvotedOthersForUpvote p m6id))) p q) :
    ∃ vote : BundleVote, (∀ m6id, vote = .upvote m6id ↔ Leads p m6id) ∧ vote ≠ .alarm ∧
      vote.Follows p q := by
  obtain ⟨byVotes,hsorted,hleader⟩ := leader_eq p
  have hleads := leaderOf_eq_some hsorted hlow
  rw [hleader] at h
  cases hl : leaderOf byVotes with
  | none =>
    rw [hl] at h
    obtain rfl := h
    refine ⟨.abstain,fun m6id => ?_,by simp,follows_refl (fun _ _ _ => rfl)⟩
    rw [← hleads,hl]
    simp
  | some m6id =>
    rw [hl] at h
    refine ⟨.upvote m6id,fun m => ?_,by simp,follows_upvote h⟩
    rw [← hleads,hl]
    simp

end BundleVote

section Rule
open Diff BundleVote ActiveSidechainDbs

variable {h : BlockHandler} {V : Chain → Block → Prop} {stale : Prop} {c : Chain}
  {dbs : Dbs} {t : ConsensusDbs}

/-- The votes of the pending bundles can be counted up. -/
def BundleVotesLow (t : ConsensusDbs) : Prop :=
  EachPending t.activeSidechains
    (fun p => ∀ m6id info, p.get? m6id = some info → info.voteCount < 0xFFFF)

theorem ackBundles_leaves {d : AckBundles} {dbs dbs' : ActiveSidechainDbs}
    (ha : d.apply dbs = .ok dbs') {s : SidechainNumber} {p : PendingM6ids}
    (hp : dbs.pendingM6ids.get? s = some p) :
    ∃ q, dbs'.pendingM6ids.get? s = some q ∧ Leaves (d.actions.get? s) p q := by
  obtain ⟨m,rfl,hsome,hnone⟩ := AckBundles.apply_ok ha
  cases hact : d.actions.get? s with
  | none => exact ⟨p,(hnone s hact).trans hp,rfl⟩
  | some a =>
    obtain ⟨p',q,hp',hq,hm⟩ := hsome s a hact
    obtain rfl := Option.some.inj (hp.symm.trans hp')
    exact ⟨q,hm,hq⟩

/-- The vote that an `M4` casts on a slot. -/
def M4AckBundles.Casts (m4 : M4AckBundles) (numbers : List SidechainNumber) (s : SidechainNumber)
    (p : PendingM6ids) (vote : BundleVote) : Prop :=
  match m4 with
  | .leadingBy50 => (∀ m6id, vote = .upvote m6id ↔ Leads p m6id) ∧ vote ≠ .alarm
  | m4 => ∃ codes code, readCodes m4 = some codes ∧ (s,code) ∈ numbers.zip codes ∧
      ofCode p code = some vote

/-- A code that is neither a sentinel nor a position of the pending bundles. -/
def BadCode (t : ConsensusDbs) (e : SidechainNumber × UInt16) : Prop :=
  e.2 ≠ M4AckBundles.abstainTwoBytes ∧ e.2 ≠ M4AckBundles.alarmTwoBytes ∧
    ∀ p, t.activeSidechains.pendingM6ids.get? e.1 = some p → p.len ≤ e.2.toNat

theorem ofCode_eq_none {p : PendingM6ids} {code : UInt16} (hn : ofCode p code = none) :
    code ≠ M4AckBundles.abstainTwoBytes ∧ code ≠ M4AckBundles.alarmTwoBytes ∧
      p.len ≤ code.toNat := by
  unfold ofCode at hn
  split at hn
  · cases hn
  · rename_i habs
    split at hn
    · cases hn
    · rename_i halarm
      rw [Option.map_eq_none_iff,List.getElem?_eq_none_iff,OrderMap.keys,List.length_map] at hn
      exact ⟨habs,halarm,hn⟩

theorem handleM4Votes_fails {P : Error → Prop} {upvotes : List UInt16}
    (ht : t.activeSidechains.Tables) (hlen : upvotes.length = t.activeSidechains.numbers.length)
    (hidx : ∀ e ∈ t.activeSidechains.numbers.zip upvotes, e.2 ≠ M4AckBundles.abstainTwoBytes →
      e.2 ≠ M4AckBundles.alarmTwoBytes → ∀ p, t.activeSidechains.pendingM6ids.get? e.1 = some p →
        e.2.toNat < p.len) : FailsOnly P (handleM4Votes t upvotes) := by
  refine .bind (.ensure (fun hne => absurd hlen (by simpa using hne))) (fun _ _ => ?_)
  refine .foldlM (fun _ _ => True) trivial (fun _ _ _ _ _ _ _ _ => trivial) ?_
  intro done e rest d hl _
  have hmem : e ∈ t.activeSidechains.numbers.zip upvotes := by rw [hl]; simp
  unfold handleM4Vote
  split
  · exact .ok _
  · rename_i habs
    refine .bind (getPending_failsOnly ht (FinMap.mem_keys.mp (List.of_mem_zip hmem).1)) ?_
    intro p hp
    rw [Database.get_ok] at hp
    split
    · exact .pure _
    · rename_i halarm
      refine .bind (.require (fun hnone => ?_)) (fun _ _ => .pure _)
      have hlt := hidx e hmem habs halarm p hp
      rw [OrderMap.getIndex,List.getElem?_eq_none_iff] at hnone
      exact absurd hlt (Nat.not_lt.mpr hnone)

theorem handleM4Votes_codes {upvotes : List UInt16} {d : AckBundles}
    (hd : handleM4Votes t upvotes = .ok d) :
    upvotes.length = t.activeSidechains.numbers.length ∧
      ∀ e ∈ t.activeSidechains.numbers.zip upvotes, ¬ BadCode t e := by
  obtain ⟨_,hlen,hd⟩ := Fallible.bind_ok.mp hd
  refine ⟨by simpa using hlen,?_⟩
  refine Fallible.foldlM_prefix (fun done _ => ∀ e ∈ done, ¬ BadCode t e) hd (by simp) ?_
  rintro done e rest d d' - hI hstep e' he'
  rcases List.mem_append.mp he' with hm | hm
  · exact hI e' hm
  · obtain rfl := List.mem_singleton.mp hm
    rintro ⟨habs,halarm,hlong⟩
    unfold handleM4Vote at hstep
    rw [if_neg habs] at hstep
    obtain ⟨p,hp,hstep⟩ := Fallible.bind_ok.mp hstep
    rw [Database.get_ok] at hp
    rw [if_neg halarm] at hstep
    obtain ⟨entry,hentry,-⟩ := Fallible.bind_ok.mp hstep
    rw [Fallible.require_ok,OrderMap.getIndex,List.getElem?_eq_none_iff.mpr (hlong p hp)] at hentry
    cases hentry

variable [Bitcoin]

omit [Bitcoin] in
theorem handleM4Votes_error_iff (ht : t.activeSidechains.Tables) (upvotes : List UInt16) :
    (∃ e, handleM4Votes t upvotes = .error e) ↔
      upvotes.length ≠ t.activeSidechains.numbers.length ∨
        ∃ e ∈ t.activeSidechains.numbers.zip upvotes, BadCode t e := by
  constructor
  · rintro ⟨e,he⟩
    by_contra hno
    rw [not_or,not_not] at hno
    have hok := handleM4Votes_fails (P := fun _ => False) ht hno.1 (fun e hm habs halarm p hp => by
      by_contra hlong
      refine hno.2 ⟨e,hm,habs,halarm,fun p' hp' => ?_⟩
      obtain rfl := Option.some.inj (hp.symm.trans hp')
      exact Nat.not_lt.mp hlong)
    exact hok e he
  · intro hbad
    cases hd : handleM4Votes t upvotes with
    | error e => exact ⟨e,rfl⟩
    | ok d =>
      obtain ⟨hlen,hcodes⟩ := handleM4Votes_codes hd
      rcases hbad with hne | ⟨e,hm,hbad⟩
      · exact absurd hlen hne
      · exact absurd hbad (hcodes e hm)

omit [Bitcoin] in
theorem handleM4AckBundles_codes {parent : BlockHash} {prevDiff : Option Diff.Block}
    {m4 : M4AckBundles} {codes : List UInt16} {d : AckBundles} (hcodes : readCodes m4 = some codes)
    (hd : handleM4AckBundles t parent prevDiff m4 = .ok d) : handleM4Votes t codes = .ok d := by
  cases m4 with
  | repeatPrevious => cases hcodes
  | leadingBy50 => cases hcodes
  | oneByte upvotes =>
    obtain rfl := Option.some.inj hcodes
    exact hd
  | twoBytes upvotes =>
    obtain rfl := Option.some.inj hcodes
    simp only [handleM4AckBundles] at hd
    split at hd
    · cases hd
    · exact hd

omit [Bitcoin] in
/-- An accepted `M4` that casts its own votes changes the bundles of each slot as its vote
on the slot says. -/
theorem m4_follows {parent : BlockHash} {prevDiff : Option Diff.Block} {m4 : M4AckBundles}
    {d : AckBundles} (ht : t.activeSidechains.Tables) (hlow : BundleVotesLow t)
    (hm4 : m4 ≠ .repeatPrevious) (hd : handleM4AckBundles t parent prevDiff m4 = .ok d) :
    ∃ dbs', d.apply t.activeSidechains = .ok dbs' ∧
      dbs' = { t.activeSidechains with pendingM6ids := dbs'.pendingM6ids } ∧
      (∀ s, t.activeSidechains.sidechain.contains s = false →
        dbs'.pendingM6ids.get? s = t.activeSidechains.pendingM6ids.get? s) ∧
      ∀ s, t.activeSidechains.sidechain.contains s = true →
        ∃ p q vote, t.activeSidechains.pendingM6ids.get? s = some p ∧
          dbs'.pendingM6ids.get? s = some q ∧ m4.Casts t.activeSidechains.numbers s p vote ∧
          vote.Follows p q := by
  have hmade := made_handleM4AckBundles hd
  obtain ⟨dbs',ha⟩ := ackBundles_succeeds hmade
  obtain ⟨m,rfl,-,hnone⟩ := AckBundles.apply_ok ha
  refine ⟨_,ha,rfl,?_,?_⟩
  · intro s hs
    refine hnone s ?_
    by_contra hact
    obtain ⟨a,hact⟩ := Option.ne_none_iff_exists'.mp hact
    obtain ⟨p,hp,-⟩ := hmade s a hact
    have hcontains := ht.pending s
    rw [hs,(FinMap.contains_iff _ _).mpr ⟨p,hp⟩] at hcontains
    cases hcontains
  · intro s hs
    obtain ⟨p,hp⟩ := pending_of_active ht hs
    obtain ⟨q,hq,hleaves⟩ := ackBundles_leaves ha hp
    have hnum : s ∈ t.activeSidechains.numbers := FinMap.mem_keys.mpr hs
    have hlist : ∀ codes, readCodes m4 = some codes → ∃ code vote,
        (s,code) ∈ t.activeSidechains.numbers.zip codes ∧ ofCode p code = some vote ∧
          vote.Follows p q := by
      intro codes hcodes
      have hv := handleM4AckBundles_codes hcodes hd
      obtain ⟨hlen,hgood⟩ := handleM4Votes_codes hv
      obtain ⟨code,hmem⟩ : ∃ code, (s,code) ∈ t.activeSidechains.numbers.zip codes := by
        have hfst : s ∈ (t.activeSidechains.numbers.zip codes).map Prod.fst := by
          rw [List.map_fst_zip (Nat.le_of_eq hlen.symm)]
          exact hnum
        obtain ⟨⟨s',code⟩,hm,rfl⟩ := List.mem_map.mp hfst
        exact ⟨code,hm⟩
      cases hvote : ofCode p code with
      | none =>
        obtain ⟨habs,halarm,hlong⟩ := ofCode_eq_none hvote
        refine absurd ⟨habs,halarm,fun p' hp' => ?_⟩ (hgood (s,code) hmem)
        obtain rfl := Option.some.inj (hp.symm.trans hp')
        exact hlong
      | some vote =>
        rw [handleM4Votes_actions hv (s,code) hmem p hp] at hleaves
        exact ⟨code,vote,hmem,hvote,follows_voteAction (hlow s p hp) hvote hleaves⟩
    cases m4 with
    | repeatPrevious => exact absurd rfl hm4
    | leadingBy50 =>
      rw [handleM4LeadingBy50_actions hd s hnum p hp] at hleaves
      obtain ⟨vote,hleads,halarm,hfollows⟩ := follows_leader (hlow s p hp) hleaves
      exact ⟨p,q,vote,hp,hq,⟨hleads,halarm⟩,hfollows⟩
    | oneByte upvotes =>
      obtain ⟨code,vote,hmem,hvote,hfollows⟩ := hlist _ rfl
      exact ⟨p,q,vote,hp,hq,⟨_,code,rfl,hmem,hvote⟩,hfollows⟩
    | twoBytes upvotes =>
      obtain ⟨code,vote,hmem,hvote,hfollows⟩ := hlist _ rfl
      exact ⟨p,q,vote,hp,hq,⟨_,code,rfl,hmem,hvote⟩,hfollows⟩

theorem Grown.bundleVotesLow {D : BlockHash → Option Diff.Block} {t₀ : ConsensusDbs}
    {parent : BlockHash} {prevDiff : Option Diff.Block} {msgs : List CoinbaseMessage}
    {ds : List CoinbaseMsg} (hg : Grown h V stale D c t₀)
    (hmax : h.thresholds.withdrawalBundleMaxAge.toNat+3 < 0xFFFF)
    (hr : Ran h c.length parent prevDiff t₀ msgs t ds)
    (hm3 : (msgs.filter CoinbaseMessage.isM3).length ≤ 1)
    (hm4 : (msgs.filter CoinbaseMessage.isM4).length ≤ 1) : BundleVotesLow t := by
  intro s p hp m6id info hi
  have hread := hg.bundlesRead hr hm3 s p hp
  have hvotes := hread.votes m6id info hi
  have hfirst := hread.first _ (mem_heights.mpr ⟨m6id,info,hi,rfl⟩)
  rw [UInt16.lt_iff_toNat_lt]
  have h16 : (0xFFFF : UInt16).toNat = 65535 := rfl
  omega

omit [Bitcoin] in
theorem handleM4AckBundles_twoBytes_error_iff {parent : BlockHash} {prevDiff : Option Diff.Block}
    (ht : t.activeSidechains.Tables) (upvotes : List UInt16) :
    (∃ e, handleM4AckBundles t parent prevDiff (.twoBytes upvotes) = .error e) ↔
      (∀ v ∈ upvotes, v ≤ 253) ∨ upvotes.length ≠ t.activeSidechains.numbers.length ∨
        ∃ e ∈ t.activeSidechains.numbers.zip upvotes, BadCode t e := by
  simp only [handleM4AckBundles]
  split
  · rename_i hall
    exact ⟨fun _ => .inl (fun v hv => of_decide_eq_true (List.all_eq_true.mp hall v hv)),
      fun _ => ⟨_,rfl⟩⟩
  · rename_i hall
    rw [handleM4Votes_error_iff ht]
    constructor
    · exact .inr
    · rintro (hle | hbad)
      · exact absurd (List.all_eq_true.mpr (fun v hv => decide_eq_true (hle v hv))) hall
      · exact hbad

omit [Bitcoin] in
theorem handleM4LeadingBy50_succeeds (ht : t.activeSidechains.Tables) :
    ∃ d, handleM4LeadingBy50 t = .ok d := by
  have hok : FailsOnly (fun _ => False) (handleM4LeadingBy50 t) := by
    refine .foldlM (fun _ _ => True) trivial (fun _ _ _ _ _ _ _ _ => trivial) ?_
    intro done s rest d hl _
    have hmem : s ∈ t.activeSidechains.numbers := by rw [hl]; simp
    exact .bind (getPending_failsOnly ht (FinMap.mem_keys.mp hmem)) (fun _ _ => .pure _)
  exact hok.succeeds

/-- Votes follow the rule on every state on which a block may be read, at every point of
its coinbase. A message is rejected for the number of its votes, for a code that is neither a
sentinel nor a position, and for two bytes where one is enough, and for nothing else. The one
byte codes count as the two byte codes they stand for. What an accepted message does to a slot
is what its vote on the slot says, and ties do not matter for the leader. -/
theorem m4_follows_rule (params : NetworkParams) (fork : Fork) (network : Network)
    (hp : params.thresholds = .forNetwork fork network) (hr : Reach (.new params) V stale dbs c)
    (coinbase : Transaction) (scan : CoinbaseScan) (done rest : List (CoinbaseMessage × ℕ))
    (acc : CoinbaseState) (parent : BlockHash) (prevDiff : Option Diff.Block)
    (hscan : scanCoinbase coinbase = .ok scan) (hsplit : scan.messages.messages = done++rest)
    (hdone : done.foldlM ((BlockHandler.new params).connectMessage c.length parent prevDiff
      scan.m1SidechainProposals) ⟨dbs.toConsensusDbs,.empty,[],[]⟩ = .ok acc) :
    (∀ upvotes, (∃ e, handleM4AckBundles acc.dbs parent prevDiff (.oneByte upvotes) = .error e) ↔
      upvotes.length ≠ acc.dbs.activeSidechains.numbers.length ∨
        ∃ e ∈ acc.dbs.activeSidechains.numbers.zip (upvotes.map widenVote), BadCode acc.dbs e) ∧
    (∀ upvotes, (∃ e, handleM4AckBundles acc.dbs parent prevDiff (.twoBytes upvotes) = .error e) ↔
      (∀ v ∈ upvotes, v ≤ 253) ∨ upvotes.length ≠ acc.dbs.activeSidechains.numbers.length ∨
        ∃ e ∈ acc.dbs.activeSidechains.numbers.zip upvotes, BadCode acc.dbs e) ∧
    (∃ d, handleM4AckBundles acc.dbs parent prevDiff .leadingBy50 = .ok d) ∧
    (∀ upvotes, (∃ v ∈ upvotes.map widenVote, 253 < v) →
      handleM4AckBundles acc.dbs parent prevDiff (.oneByte upvotes) =
        handleM4AckBundles acc.dbs parent prevDiff (.twoBytes (upvotes.map widenVote))) ∧
    (∀ m4 d, m4 ≠ .repeatPrevious → handleM4AckBundles acc.dbs parent prevDiff m4 = .ok d →
      ∃ dbs', d.apply acc.dbs.activeSidechains = .ok dbs' ∧
        dbs' = { acc.dbs.activeSidechains with pendingM6ids := dbs'.pendingM6ids } ∧
        (∀ s, acc.dbs.activeSidechains.sidechain.contains s = false →
          dbs'.pendingM6ids.get? s = acc.dbs.activeSidechains.pendingM6ids.get? s) ∧
        ∀ s, acc.dbs.activeSidechains.sidechain.contains s = true →
          ∃ p q vote, acc.dbs.activeSidechains.pendingM6ids.get? s = some p ∧
            dbs'.pendingM6ids.get? s = some q ∧
            m4.Casts acc.dbs.activeSidechains.numbers s p vote ∧ vote.Follows p q) ∧
    ∀ s p byVotes, acc.dbs.activeSidechains.pendingM6ids.get? s = some p →
      SortedByVotes p byVotes → leaderOf byVotes = leader p := by
  have hs := hr.synced
  obtain ⟨hmsgs,hone⟩ := scanCoinbase_ok hscan
  rw [← hmsgs,hsplit,List.map_append] at hone
  have hran := (ran_foldlM hdone).1
  have ht : acc.dbs.activeSidechains.Tables := (ran_wf hran hs.grown.wf.1).tables
  have hm3 : ((done.map Prod.fst).filter CoinbaseMessage.isM3).length ≤ 1 := by
    have hall := hone.m3
    rw [List.filter_append,List.length_append] at hall
    omega
  have hm4 : ((done.map Prod.fst).filter CoinbaseMessage.isM4).length ≤ 1 := by
    have hall := hone.m4
    rw [List.filter_append,List.length_append] at hall
    omega
  have hmax : (BlockHandler.new params).thresholds.withdrawalBundleMaxAge.toNat+3 < 0xFFFF := by
    have hage := (Thresholds.forNetwork_maxAge fork network).2
    rw [← hp] at hage
    have halarm : M4AckBundles.alarmTwoBytes.toNat = 0xFFFE := rfl
    have hsame : (BlockHandler.new params).thresholds = params.thresholds := rfl
    rw [hsame]
    omega
  have hlow := hs.grown.bundleVotesLow hmax hran hm3 hm4
  refine ⟨?_,?_,?_,?_,?_,?_⟩
  · intro upvotes
    have hiff := handleM4Votes_error_iff ht (upvotes.map widenVote)
    rwa [List.length_map] at hiff
  · exact handleM4AckBundles_twoBytes_error_iff ht
  · exact handleM4LeadingBy50_succeeds ht
  · rintro upvotes ⟨v,hv,hlt⟩
    have hwide : ¬ (upvotes.map widenVote).all (fun v => v ≤ 253) = true := by
      intro hall
      exact absurd (of_decide_eq_true (List.all_eq_true.mp hall v hv)) (UInt16.not_le.mpr hlt)
    rw [handleM4AckBundles,handleM4AckBundles,if_neg hwide]
  · intro m4 d hm4 hd
    exact m4_follows ht hlow hm4 hd
  · intro s p byVotes hpend hsorted
    obtain ⟨byVotes',hsorted',hleader⟩ := leader_eq p
    rw [hleader]
    have h₁ := leaderOf_eq_some hsorted (hlow s p hpend)
    have h₂ := leaderOf_eq_some hsorted' (hlow s p hpend)
    exact Option.ext (fun m6id => (h₁ m6id).trans (h₂ m6id).symm)

end Rule

section Sample

open Sample VoteSample

theorem m4_follows_rule_sample :
    ∃ d dbs' p q, handleM4AckBundles run.1.toConsensusDbs allZeros none (.oneByte [0]) = .ok d ∧
      d.apply run.1.activeSidechains = .ok dbs' ∧
      run.1.activeSidechains.pendingM6ids.get? 0 = some p ∧ dbs'.pendingM6ids.get? 0 = some q ∧
      BundleVote.Follows (.upvote 7) p q := by
  obtain ⟨d,hd⟩ : ∃ d, handleM4AckBundles run.1.toConsensusDbs allZeros none (.oneByte [0]) = .ok d :=
    Fallible.exists_of_isOk (by decide +kernel)
  obtain ⟨scan,hscan⟩ : ∃ scan, scanCoinbase ⟨1,0,[],[]⟩ = .ok scan :=
    Fallible.exists_of_isOk (by decide +kernel)
  have hrule := m4_follows_rule handler.params .bitcoin .regtest rfl reach_run
    ⟨1,0,[],[]⟩ scan [] scan.messages.messages ⟨run.1.toConsensusDbs,.empty,[],[]⟩ allZeros none
    hscan rfl rfl
  dsimp only at hrule
  obtain ⟨dbs',ha,-,-,hact⟩ := hrule.2.2.2.2.1 (.oneByte [0]) d (by simp) hd
  obtain ⟨p,q,vote,hpend,hq,hcast,hfollows⟩ := hact 0 (by decide +kernel)
  have hbundles : run.1.activeSidechains.pendingM6ids.get? 0 =
      some (OrderMap.empty.insert 7 ⟨2,8⟩) := by decide +kernel
  obtain ⟨codes,code,hcodes,hmem,hvote⟩ := hcast
  obtain rfl := Option.some.inj hcodes
  have hnum : run.1.activeSidechains.numbers = [0] := by decide +kernel
  have hzip : (0,code) ∈ [((0 : SidechainNumber),(0 : UInt16))] := by
    rw [hnum] at hmem
    exact hmem
  obtain ⟨-,rfl⟩ := Prod.mk.inj (List.mem_singleton.mp hzip)
  obtain rfl := Option.some.inj (hbundles.symm.trans hpend)
  obtain rfl : vote = .upvote 7 := Option.some.inj (hvote.symm.trans (by decide))
  exact ⟨d,dbs',_,q,hd,ha,hpend,hq,hfollows⟩

end Sample

end Bip300301Enforcer
