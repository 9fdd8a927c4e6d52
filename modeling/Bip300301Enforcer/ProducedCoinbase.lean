import Bip300301Enforcer.BundleVotes
import Bip300301Enforcer.ProducedMessages

/-! The coinbase that the node produces is accepted, and its votes are read as they were
chosen. -/
namespace Bip300301Enforcer
open Lib Chain BlockHandler Diff
open CoinbaseBuilder (Built)
open Fallible (FailsOnly)

namespace BlockProducer

section Votes

def readVote (code : UInt16) : WithdrawalBundleVote :=
  if code = M4AckBundles.abstainTwoBytes then .abstain
  else if code = M4AckBundles.alarmTwoBytes then .alarm
  else .upvote code

def IndexFits (vote : WithdrawalBundleVote) : Prop :=
  ∀ index, vote = .upvote index → index.toNat < M4AckBundles.alarmTwoBytes.toNat

theorem readVote_twoByteVote {vote : WithdrawalBundleVote} (hv : IndexFits vote) :
    readVote (M4AckBundles.twoByteVote vote) = vote := by
  cases vote with
  | abstain => rfl
  | alarm => rfl
  | upvote index =>
    have hlt := hv index rfl
    have habs : index ≠ M4AckBundles.abstainTwoBytes := by
      rintro rfl
      exact absurd hlt (by decide)
    have halarm : index ≠ M4AckBundles.alarmTwoBytes := by
      rintro rfl
      exact absurd hlt (by decide)
    simp only [readVote,M4AckBundles.twoByteVote,habs,halarm,if_false]

/-- A vote that needs one byte is widened to its two-byte code. -/
theorem widenVote_oneByteVote {vote : WithdrawalBundleVote}
    (hv : M4AckBundles.needsTwoBytes vote = false) :
    widenVote (M4AckBundles.oneByteVote vote) = M4AckBundles.twoByteVote vote := by
  cases vote with
  | abstain => rfl
  | alarm => rfl
  | upvote index =>
    have hle : index.toNat ≤ 253 := by
      simp only [M4AckBundles.needsTwoBytes,decide_eq_false_iff_not] at hv
      exact Nat.not_lt.mp hv
    have hbyte : index.toUInt8.toNat = index.toNat := by
      rw [UInt16.toNat_toUInt8]
      omega
    have habs : index.toUInt8 ≠ M4AckBundles.abstainOneByte := by
      intro he
      rw [he] at hbyte
      exact absurd hle (by rw [← hbyte]; decide)
    have halarm : index.toUInt8 ≠ M4AckBundles.alarmOneByte := by
      intro he
      rw [he] at hbyte
      exact absurd hle (by rw [← hbyte]; decide)
    simp only [widenVote,M4AckBundles.oneByteVote,M4AckBundles.twoByteVote,habs,halarm,if_false]
    apply UInt16.toNat_inj.mp
    rw [UInt8.toNat_toUInt16,hbyte]

theorem readCodes_fromVotes (votes : List WithdrawalBundleVote) :
    readCodes (.fromVotes votes) = some (votes.map M4AckBundles.twoByteVote) := by
  unfold M4AckBundles.fromVotes
  split
  · rfl
  · rename_i hany
    simp only [Bool.not_eq_true,List.any_eq_false] at hany
    simp only [readCodes,List.map_map,Option.some.injEq]
    refine List.map_congr_left (fun vote hv => widenVote_oneByteVote ?_)
    simpa using hany vote hv

theorem handleM4AckBundles_fromVotes {t : ConsensusDbs} {parent : BlockHash}
    {prevDiff : Option Diff.Block} (votes : List WithdrawalBundleVote) :
    handleM4AckBundles t parent prevDiff (.fromVotes votes) =
      handleM4Votes t (votes.map M4AckBundles.twoByteVote) := by
  have hcodes := readCodes_fromVotes votes
  unfold M4AckBundles.fromVotes at hcodes ⊢
  split
  · rename_i hany
    have hwide : ¬ (votes.map M4AckBundles.twoByteVote).all (fun v => v ≤ 253) = true := by
      intro hall
      obtain ⟨vote,hv,hneeds⟩ := List.any_eq_true.mp hany
      have hle := List.all_eq_true.mp hall _ (List.mem_map_of_mem hv)
      cases vote with
      | abstain => cases hneeds
      | alarm => cases hneeds
      | upvote index =>
        simp only [M4AckBundles.needsTwoBytes,decide_eq_true_eq] at hneeds
        exact absurd hneeds (UInt16.not_lt.mpr (of_decide_eq_true hle))
    rw [handleM4AckBundles,if_neg hwide]
  · rename_i hany
    rw [if_neg hany] at hcodes
    simp only [handleM4AckBundles]
    rw [Option.some.inj hcodes]

/-- A resolved upvote is for a pending bundle. -/
theorem resolve_upvote {policy : WithdrawalBundlePolicy} {pending acked ours : List M6id}
    {index : UInt16} (h : WithdrawalBundleVote.resolve policy pending acked ours = .upvote index) :
    index.toNat < pending.length := by
  have hfirst : ∀ {f : M6id → Bool},
      WithdrawalBundleVote.firstMatching pending f = some (.upvote index) →
      index.toNat < pending.length := by
    intro f hf
    obtain ⟨i,hi,hf⟩ := Option.bind_eq_some_iff.mp hf
    split at hf
    · rename_i hlt
      obtain rfl := WithdrawalBundleVote.upvote.inj (Option.some.inj hf)
      rw [UInt16.toNat_ofNat',Nat.mod_eq_of_lt hlt]
      exact (List.findIdx?_eq_some_iff_getElem.mp hi).1
    · cases hf
  unfold WithdrawalBundleVote.resolve at h
  split at h
  · rename_i vote hvote
    rw [h] at hvote
    exact hfirst hvote
  · cases policy with
    | none => cases h
    | alarm => cases h
    | known =>
      simp only at h
      cases hf : WithdrawalBundleVote.firstMatching pending (fun m6id => m6id ∈ ours) with
      | none => rw [hf] at h; cases h
      | some vote =>
        rw [hf] at h
        obtain rfl : vote = .upvote index := h
        exact hfirst hf
    | all =>
      simp only at h
      cases hf : WithdrawalBundleVote.firstMatching pending (fun _ => true) with
      | none => rw [hf] at h; cases h
      | some vote =>
        rw [hf] at h
        obtain rfl : vote = .upvote index := h
        exact hfirst hf

end Votes

section Accepted

variable [Bitcoin] {h : BlockHandler} {t t₀ : ConsensusDbs} {n : ℕ} {parent : BlockHash}
  {prevDiff : Option Diff.Block} {msgs : List CoinbaseMessage} {ds : List CoinbaseMsg}
  {votes : List WithdrawalBundleVote}

/-- The pending bundles of a slot keep their positions while a coinbase is read, and only
an `M3` adds one. -/
theorem ran_pendingKeys (hr : Ran h n parent prevDiff t₀ msgs t ds) (hw : t₀.Wf)
    {s : SidechainNumber} {p : PendingM6ids} (hp : t₀.activeSidechains.pendingM6ids.get? s = some p) :
    ∃ q, t.activeSidechains.pendingM6ids.get? s = some q ∧ p.keys <+: q.keys ∧
      ((∀ s m6id, .m3ProposeBundle s m6id ∉ msgs) → q.keys = p.keys) := by
  induction hr with
  | start => exact ⟨p,hp,List.prefix_refl _,fun _ => rfl⟩
  | ignored _ _ ih =>
    obtain ⟨q,hq,hpre,hsame⟩ := ih
    exact ⟨q,hq,hpre,fun hno => hsame (fun s m hm => hno s m (List.mem_append_left _ hm))⟩
  | @applied msgs t t' ds msg e d hr hh ha ih =>
    obtain ⟨q,hq,hpre,hsame⟩ := ih
    have hactive : t'.activeSidechains.sidechain.contains s = true := by
      refine (message_frame ha).2 s ?_
      rw [← (ran_wf hr hw).tables.pending s]
      exact (FinMap.contains_iff _ _).mpr ⟨q,hq⟩
    obtain ⟨q',hq'⟩ := ActiveSidechainDbs.pending_of_active (wf_message (ran_wf hr hw) hh ha).tables hactive
    refine ⟨q',hq',?_⟩
    rcases message_bundles hh ha hq' with ⟨hnone,-⟩ | ⟨q₁,hq₁,hcase⟩
    · rw [hq] at hnone
      cases hnone
    · obtain rfl := Option.some.inj (hq.symm.trans hq₁)
      rcases hcase with ⟨m6id,-,hmsg,hnew,rfl⟩ | ⟨-,f,rfl,-⟩
      · have hkeys : (q.insert m6id (.new n)).keys = q.keys++[m6id] := by
          rw [OrderMap.keys,OrderMap.insert_of_not_mem _ hnew,List.map_append]
          rfl
        rw [hkeys]
        refine ⟨hpre.trans (List.prefix_append _ _),fun hno => ?_⟩
        exact absurd (List.mem_append_right _ (by rw [hmsg]; exact List.mem_singleton_self _))
          (hno s m6id)
      · rw [OrderMap.keys_mapVals]
        exact ⟨hpre,fun hno => hsame (fun s m hm => hno s m (List.mem_append_left _ hm))⟩

/-- The active slots are the same when no ack activates an unused one. -/
theorem ran_numbers (hr : Ran h n parent prevDiff t₀ msgs t ds)
    (hlt : EachProposal t₀ (fun _ sc => sc.status.proposalHeight < n)) (hlow : VotesLow t₀)
    (hone : (msgs.filterMap CoinbaseMessage.m2Slot).Nodup)
    (hno : NoSlotActivation h.thresholds t₀ n msgs) :
    t.activeSidechains.numbers = t₀.activeSidechains.numbers := by
  have hread := ran_proposals hr hlt hone
  refine FinMap.keys_eq (fun s => ?_)
  cases hs : t₀.activeSidechains.sidechain.contains s with
  | true => exact (ran_frame hr).2 s hs
  | false =>
    have hnone := (FinMap.contains_false_iff _ _).mp hs
    rw [FinMap.contains_false_iff]
    by_cases hm : s ∈ msgs.filterMap CoinbaseMessage.m2Slot
    · obtain ⟨dh,hack⟩ := mem_m2Slots.mp hm
      have hslot := (hread.acked ⟨s,dh⟩ hack).1
      rw [hslot,slotAfterAck]
      cases hsc : t₀.proposalIdToSidechain.get? ⟨s,dh⟩ with
      | none => exact hnone
      | some sc =>
        have hmax : sc.status.voteCount ≠ 0xFFFF := by
          intro he
          have hvotes : sc.status.voteCount.toNat+1 < 0xFFFF := hlow _ sc hsc
          rw [he] at hvotes
          exact absurd hvotes (by decide)
        have hact : h.ackActivates n t₀ ⟨s,dh⟩ sc = false := by
          have := hno ⟨s,dh⟩ sc hack hs hsc hmax
          simp [ackActivates,newSidechainActivated,hnone,this]
        simp only [hact,Bool.false_eq_true,if_false]
        exact hnone
    · rw [hread.sameSlot s hm]
      exact hnone

def VotesFit (t : ConsensusDbs) (votes : List WithdrawalBundleVote) : Prop :=
  List.Forall₂ (fun s vote => ∀ index, vote = .upvote index →
    ∃ p, t.activeSidechains.pendingM6ids.get? s = some p ∧ index.toNat < p.len)
    t.activeSidechains.numbers votes

/-- No message of a produced coinbase is refused. -/
theorem produced_message {P : Error → Prop} {accepted : BmmCommitments}
    {done rest : List CoinbaseMessage} {msg : CoinbaseMessage} (hw : t₀.Wf)
    (hlt : EachProposal t₀ (fun _ sc => sc.status.proposalHeight < n)) (hlow : VotesLow t₀)
    (hp : Produced h.thresholds t₀ n votes (done++msg::rest)) (hone : OneEach (done++msg::rest))
    (hfit : VotesFit t₀ votes) (hr : Ran h n parent prevDiff t₀ done t ds) :
    FailsOnly P (h.handleCoinbaseMessage t n parent prevDiff accepted msg) := by
  have hbefore : ∀ m ∈ done, m.rank ≤ msg.rank := fun m hm =>
    (List.pairwise_append.mp hp.sorted).2.2 m hm msg (List.mem_cons_self ..)
  have hmem : msg ∈ done++msg::rest := by simp
  have ht := (ran_wf hr hw).tables
  cases msg with
  | m1ProposeSidechain s description =>
    simp only [handleCoinbaseMessage]
    split
    · exact .ok _
    · exact .ok _
  | m2AckSidechain s dh =>
    exact .bind (handleM2AckSidechain_failsOnly (votes_ne_max_read hone hr hlt hlow))
      (fun _ _ => .pure _)
  | m3ProposeBundle s m6id =>
    obtain ⟨p,hpend,hnew⟩ := hp.bundle s m6id hmem
    have hfirst : ∀ s' m, (.m3ProposeBundle s' m : CoinbaseMessage) ∉ done := by
      intro s' m hm
      have hm3 := hone.m3
      rw [List.filter_append,List.length_append,List.filter_cons_of_pos rfl,List.length_cons] at hm3
      have hmem3 : .m3ProposeBundle s' m ∈ done.filter CoinbaseMessage.isM3 :=
        List.mem_filter.mpr ⟨hm,rfl⟩
      have hpos := List.length_pos_of_mem hmem3
      omega
    obtain ⟨q,hq,-,hsame⟩ := ran_pendingKeys hr hw hpend
    have hkeys := hsame hfirst
    have hactive : t.activeSidechains.sidechain.contains s = true := by
      rw [← ht.pending s]
      exact (FinMap.contains_iff _ _).mpr ⟨q,hq⟩
    refine .bind (.bind (.ensure (fun hne => ?_)) (fun _ _ => ?_)) (fun _ _ => .pure _)
    · rw [hactive] at hne
      cases hne
    · refine .bind (.of_ok ((Database.get_ok _ _ _ _).mpr hq)) (fun q' hq' => ?_)
      rw [Database.get_ok,hq] at hq'
      obtain rfl := Option.some.inj hq'
      refine .bind (.ensure (fun hne => ?_)) (fun _ _ => .pure _)
      rw [Bool.not_eq_false',OrderMap.contains_iff,hkeys] at hne
      exact absurd hne hnew
  | m4AckBundles m4 =>
    obtain ⟨rfl,hno⟩ := hp.votes m4 hmem
    have hnodup : (done.filterMap CoinbaseMessage.m2Slot).Nodup := by
      have hm2 := hone.m2
      rw [List.filterMap_append] at hm2
      exact (List.nodup_append.mp hm2).1
    have hnum := ran_numbers hr hlt hlow hnodup
      (fun id sc hack => hno id sc (List.mem_append_left _ hack))
    refine .bind ?_ (fun _ _ => .pure _)
    rw [handleM4AckBundles_fromVotes]
    refine handleM4Votes_fails ht (by rw [hnum,List.length_map,hfit.length_eq]) ?_
    rw [hnum]
    rintro ⟨s,v⟩ he habs halarm q hq
    rw [List.zip_map_right,List.mem_map] at he
    obtain ⟨⟨s',vote⟩,he,heq⟩ := he
    obtain ⟨rfl,rfl⟩ := Prod.mk.inj heq
    cases vote with
    | abstain => exact absurd rfl habs
    | alarm => exact absurd rfl halarm
    | upvote index =>
      obtain ⟨p,hpend,hlt⟩ := (List.forall₂_zip hfit he) index rfl
      obtain ⟨q',hq',hpre,-⟩ := ran_pendingKeys hr hw hpend
      obtain rfl := Option.some.inj (hq.symm.trans hq')
      have hle := hpre.length_le
      simp only [OrderMap.keys,List.length_map] at hle
      exact Nat.lt_of_lt_of_le hlt hle
  | m7BmmAccept s commitment =>
    have hrank : (3 : ℕ) ≤ 2 := hp.below _ hmem
    omega

end Accepted

section Actions

variable [Bitcoin] {h : BlockHandler} {t t₀ : ConsensusDbs} {n : ℕ} {parent : BlockHash}
  {prevDiff : Option Diff.Block} {msgs : List CoinbaseMessage} {ds : List CoinbaseMsg}

theorem ran_snoc {msg : CoinbaseMessage}
    (hr : Ran h n parent prevDiff t₀ (msgs++[msg]) t ds) :
    ∃ t' ds' e od, Ran h n parent prevDiff t₀ msgs t' ds' ∧
      Handled h t' n parent prevDiff msg e od ∧ ds = ds'++od.toList := by
  generalize hm : msgs++[msg] = l at hr
  cases hr with
  | start => simp at hm
  | ignored hr hh =>
    obtain ⟨rfl,hlast⟩ := List.append_inj' hm rfl
    obtain rfl := List.singleton_inj.mp hlast
    exact ⟨_,_,_,none,hr,hh,by simp⟩
  | applied hr hh ha =>
    obtain ⟨rfl,hlast⟩ := List.append_inj' hm rfl
    obtain rfl := List.singleton_inj.mp hlast
    exact ⟨_,_,_,some _,hr,hh,rfl⟩

theorem ran_noVotes (hr : Ran h n parent prevDiff t₀ msgs t ds)
    (hno : ∀ m4, .m4AckBundles m4 ∉ msgs) : ∀ ab, .ackBundles ab ∉ ds := by
  induction hr with
  | start => intro ab hm; cases hm
  | ignored _ _ ih => exact ih (fun m4 hm => hno m4 (List.mem_append_left _ hm))
  | @applied msgs t t' ds msg e d _ hh _ ih =>
    intro ab hm
    rcases List.mem_append.mp hm with hm | hm
    · exact ih (fun m4 hm => hno m4 (List.mem_append_left _ hm)) ab hm
    · obtain rfl := List.mem_singleton.mp hm
      generalize hod : some (CoinbaseMsg.ackBundles ab) = od at hh
      cases hh with
      | m1Known | m2Unknown | m2SameBlock | m7 => cases hod
      | m1New | m2 | m3 => cases Option.some.inj hod
      | @m4 m4 ab' votes => exact hno m4 (List.mem_append_right _ (List.mem_singleton_self _))

omit [Bitcoin] in
/-- A produced `M4` comes last. -/
theorem Produced.split {thresholds : Thresholds} {votes : List WithdrawalBundleVote}
    {m4 : M4AckBundles} (hp : Produced thresholds t₀ n votes msgs) (hone : OneEach msgs)
    (hm : .m4AckBundles m4 ∈ msgs) :
    ∃ done, msgs = done++[.m4AckBundles m4] ∧ ∀ m4, .m4AckBundles m4 ∉ done := by
  obtain ⟨done,rest,rfl⟩ := List.append_of_mem hm
  have hcount := hone.m4
  rw [List.filter_append,List.length_append,List.filter_cons_of_pos rfl,List.length_cons] at hcount
  have hnone : ∀ l : List CoinbaseMessage, (l.filter CoinbaseMessage.isM4).length = 0 →
      ∀ m4, .m4AckBundles m4 ∉ l := by
    intro l hl m4' hm'
    have hmem : .m4AckBundles m4' ∈ l.filter CoinbaseMessage.isM4 := List.mem_filter.mpr ⟨hm',rfl⟩
    have := List.length_pos_of_mem hmem
    omega
  cases rest with
  | nil => exact ⟨done,rfl,hnone done (by omega)⟩
  | cons msg rest =>
    exfalso
    have hrank : 2 ≤ msg.rank :=
      (List.pairwise_cons.mp (List.pairwise_append.mp hp.sorted).2.1).1 msg (List.mem_cons_self ..)
    have hlast : msg.rank ≤ 2 := hp.below msg (by simp)
    cases msg with
    | m4AckBundles m4' => exact hnone (.m4AckBundles m4'::rest) (by omega) m4' (List.mem_cons_self ..)
    | m1ProposeSidechain | m2AckSidechain | m3ProposeBundle | m7BmmAccept =>
      simp only [CoinbaseMessage.rank] at hrank hlast
      omega

end Actions

/-- What a block does in a slot is what the vote for it says. An alarm does nothing when no
bundle has votes. -/
def Enacts (p : PendingM6ids) (vote : WithdrawalBundleVote) (action : Option AckBundleAction) :
    Prop :=
  match vote with
  | .abstain => action = none
  | .alarm => action = none ∨ ∃ positive, action = some (.alarm positive)
  | .upvote index => ∃ m6id others, p.keys[index.toNat]? = some m6id ∧
      action = some (.upvote m6id others)

/-- An index stands for the same bundle after others have been proposed. -/
theorem enacts_voteAction {p q : PendingM6ids} {vote : WithdrawalBundleVote}
    (hpre : p.keys <+: q.keys) (hfit : IndexFits vote)
    (hlen : ∀ index, vote = .upvote index → index.toNat < p.len)
    (hlow : ∀ m6id info, q.get? m6id = some info → info.voteCount < 0xFFFF) :
    Enacts p vote (voteAction q (M4AckBundles.twoByteVote vote)) := by
  cases vote with
  | abstain => rfl
  | alarm =>
    change _ = none ∨ _
    rw [voteAction,if_neg (by decide),if_pos (by decide)]
    split
    · exact .inl rfl
    · exact .inr ⟨_,rfl⟩
  | upvote index =>
    have hread := readVote_twoByteVote hfit
    have hlt : index.toNat < p.keys.length := by
      rw [OrderMap.keys,List.length_map]
      exact hlen index rfl
    have hkey : q.keys[index.toNat]? = some (p.keys.get ⟨index.toNat,hlt⟩) := by
      obtain ⟨l,hl⟩ := hpre
      rw [← hl,List.getElem?_append_left hlt]
      exact List.getElem?_eq_getElem hlt
    rw [OrderMap.keys,List.getElem?_map] at hkey
    obtain ⟨⟨m6id,info⟩,hentry,hm6id⟩ := Option.map_eq_some_iff.mp hkey
    have hmem : q.get? m6id = some info := OrderMap.mem_entries.mp (List.mem_of_getElem? hentry)
    have habs : index ≠ M4AckBundles.abstainTwoBytes := by
      rintro rfl
      cases hread
    have halarm : index ≠ M4AckBundles.alarmTwoBytes := by
      rintro rfl
      cases hread
    refine ⟨m6id,downvotedOthersForUpvote q m6id,?_,?_⟩
    · rw [List.getElem?_eq_getElem hlt]
      exact congrArg some hm6id.symm
    · simp only [voteAction,M4AckBundles.twoByteVote,if_neg habs,if_neg halarm,OrderMap.getIndex,
        hentry,Option.bind_some,hlow m6id info hmem,if_true]

section Main

variable [Bitcoin] {V : Chain → Block → Prop} {params : NetworkParams} {dbs : Dbs} {c : Chain}
  {stored : StoredPolicy} {bundlePolicy : WithdrawalBundlePolicy} {active : List Sidechain}
  {bundles : FinMap SidechainNumber BundleProposals} {votes : List WithdrawalBundleVote}

/-- The votes are resolved slot by slot, in the order in which they are read. -/
theorem Chosen.resolved (hc : Chosen dbs stored bundlePolicy active bundles votes)
    (hw : dbs.toConsensusDbs.Wf) :
    List.Forall₂ (fun s vote => ∃ p, dbs.activeSidechains.pendingM6ids.get? s = some p ∧
      vote = .resolve bundlePolicy p.keys
        ((stored.bundleAcks.filter (fun e => e.1 = s)).map Prod.snd)
        (((bundles.get? s).getD []).map (fun m => m.1)))
      dbs.activeSidechains.numbers votes := by
  have hvotes := hc.readVotes
  rw [Dbs.getActiveSidechains_eq hc.readActive] at hvotes
  have hpart : ∀ (l : List (SidechainNumber × Sidechain)) votes,
      (∀ e ∈ l, e.2.proposal.sidechainNumber = e.1) →
      selectBundleVotes dbs stored.bundleAcks bundles (l.map Prod.snd) bundlePolicy = .ok votes →
      List.Forall₂ (fun s vote => ∃ p, dbs.activeSidechains.pendingM6ids.get? s = some p ∧
        vote = .resolve bundlePolicy p.keys
          ((stored.bundleAcks.filter (fun e => e.1 = s)).map Prod.snd)
          (((bundles.get? s).getD []).map (fun m => m.1))) (l.map Prod.fst) votes := by
    intro l
    induction l with
    | nil =>
      intro votes _ hl
      obtain rfl := Except.ok.inj hl
      exact .nil
    | cons e l ih =>
      intro votes hslot hl
      rw [selectBundleVotes,List.map_cons,List.mapM_cons] at hl
      obtain ⟨vote,hvote,hl⟩ := Fallible.bind_ok.mp hl
      obtain ⟨rest,hrest,hl⟩ := Fallible.bind_ok.mp hl
      rw [Fallible.pure_ok] at hl
      subst hl
      obtain ⟨p,hp,hvote⟩ := Fallible.bind_ok.mp hvote
      rw [hslot e (List.mem_cons_self ..)] at hp hvote
      rw [Database.get_ok] at hp
      rw [Fallible.pure_ok] at hvote
      exact .cons ⟨p,hp,hvote.symm⟩
        (ih rest (fun e' he' => hslot e' (List.mem_cons_of_mem _ he')) hrest)
  refine hpart _ votes (fun e he => ?_) hvotes
  exact (hw.sidechains e.1 e.2 (FinMap.mem_toList.mp he)).1

theorem Chosen.votesFit (hc : Chosen dbs stored bundlePolicy active bundles votes)
    (hw : dbs.toConsensusDbs.Wf) : VotesFit dbs.toConsensusDbs votes := by
  refine (hc.resolved hw).imp ?_
  rintro s vote ⟨p,hp,hvote⟩ index hindex
  refine ⟨p,hp,?_⟩
  have hlt := resolve_upvote (hvote.symm.trans hindex)
  rwa [OrderMap.keys,List.length_map] at hlt

def ackBundlesOfMsg : CoinbaseMsg → Option AckBundles
  | .ackBundles ab => some ab
  | _ => none

theorem VotesFit.indexFits {h : BlockHandler} (hs : Synced h V False dbs c)
    (hmax : h.thresholds.withdrawalBundleMaxAge.toNat+2 < M4AckBundles.alarmTwoBytes.toNat)
    (hfit : VotesFit dbs.toConsensusDbs votes) : ∀ vote ∈ votes, IndexFits vote := by
  intro vote hv index hindex
  obtain ⟨i,hi⟩ := List.getElem?_of_mem hv
  obtain ⟨hlt,hget⟩ := List.getElem?_eq_some_iff.mp hi
  obtain ⟨p,hpend,hidx⟩ := hfit.get (by rw [hfit.length_eq]; exact hlt) hlt index
    (by rw [List.get_eq_getElem,hget]; exact hindex)
  have hle := (hs.grown.pendingBounds _ p hpend).len_le
  omega

omit [Bitcoin] in
theorem ackBundles_snoc {ds : List CoinbaseMsg} {ab : AckBundles}
    (hno : ∀ ab', .ackBundles ab' ∉ ds) (s : SidechainNumber) :
    ((ds++(if ab.actions.isEmpty then none else some (CoinbaseMsg.ackBundles ab)).toList).findSome?
      ackBundlesOfMsg).bind (fun ab => ab.actions.get? s) = ab.actions.get? s := by
  have hnone : ds.findSome? ackBundlesOfMsg = none := by
    rw [List.findSome?_eq_none_iff]
    intro d hd
    cases d with
    | ackBundles ab' => exact absurd hd (hno ab')
    | _ => rfl
  rw [List.findSome?_append,hnone,Option.none_or]
  split
  · rename_i hempty
    rw [(FinMap.isEmpty_iff _).mp hempty]
    rfl
  · rfl

/-- No pending bundle has all its votes when an `M4` is read. -/
theorem votes_below_max {h : BlockHandler} {t : ConsensusDbs} {done : List CoinbaseMessage}
    {ds : List CoinbaseMsg} {parent : BlockHash} {prevDiff : Option Diff.Block} {m4 : M4AckBundles}
    {s : SidechainNumber} {q : PendingM6ids} {m6id : M6id} {info : PendingM6idInfo}
    (hs : Synced h V False dbs c)
    (hmax : h.thresholds.withdrawalBundleMaxAge.toNat+2 < M4AckBundles.alarmTwoBytes.toNat)
    (hone : OneEach (done++[.m4AckBundles m4]))
    (hdone : Ran h c.length parent prevDiff dbs.toConsensusDbs done t ds)
    (hq : t.activeSidechains.pendingM6ids.get? s = some q) (hi : q.get? m6id = some info) :
    info.voteCount < 0xFFFF := by
  have hm3 : (done.filter CoinbaseMessage.isM3).length ≤ 1 := by
    have hall := hone.m3
    rw [List.filter_append,List.length_append] at hall
    omega
  have hm4 : (done.filter CoinbaseMessage.isM4).length = 0 := by
    have hall := hone.m4
    rw [List.filter_append,List.length_append,List.filter_cons_of_pos rfl] at hall
    simp only [List.filter_nil,List.length_singleton] at hall
    omega
  have hb := hs.grown.bundlesRead hdone hm3 s q hq
  have hvotes := hb.votes m6id info hi
  have hheight := hb.first _ (PendingM6ids.mem_heights.mpr ⟨m6id,info,hi,rfl⟩)
  have halarm : M4AckBundles.alarmTwoBytes.toNat = 65534 := rfl
  have hmaxvotes : (0xFFFF : UInt16).toNat = 65535 := rfl
  apply UInt16.lt_iff_toNat_lt.mpr
  omega

/-- The votes of a produced coinbase are enacted. -/
theorem Produced.enacted {h : BlockHandler} {t : ConsensusDbs} {msgs : List CoinbaseMessage}
    {ds : List CoinbaseMsg} {parent : BlockHash} {prevDiff : Option Diff.Block} {m4 : M4AckBundles}
    {V : Chain → Block → Prop} (hs : Synced h V False dbs c)
    (hage : h.thresholds.proposalMaxAge+1 < 0xFFFF)
    (hmax : h.thresholds.withdrawalBundleMaxAge.toNat+2 < M4AckBundles.alarmTwoBytes.toNat)
    (hp : Produced h.thresholds dbs.toConsensusDbs c.length votes msgs) (hone : OneEach msgs)
    (hfit : VotesFit dbs.toConsensusDbs votes)
    (hr : Ran h c.length parent prevDiff dbs.toConsensusDbs msgs t ds)
    (hm : .m4AckBundles m4 ∈ msgs) :
    (readCodes m4).map (List.map readVote) = some votes ∧
      List.Forall₂ (fun s vote => ∀ p, dbs.activeSidechains.pendingM6ids.get? s = some p →
        Enacts p vote ((ds.findSome? ackBundlesOfMsg).bind (fun ab => ab.actions.get? s)))
        dbs.activeSidechains.numbers votes := by
  have hw := hs.grown.wf.1
  obtain ⟨rfl,hno⟩ := hp.votes m4 hm
  obtain ⟨done,rfl,hfirst⟩ := hp.split hone hm
  obtain ⟨t',ds',e,od,hdone,hh,rfl⟩ := ran_snoc hr
  have hfits := hfit.indexFits hs hmax
  refine ⟨?_,?_⟩
  · rw [readCodes_fromVotes,Option.map_some,List.map_map]
    have hread : votes.map (readVote ∘ M4AckBundles.twoByteVote) = votes.map id :=
      List.map_congr_left (fun vote hv => readVote_twoByteVote (hfits vote hv))
    rw [hread,List.map_id]
  generalize hmsg : CoinbaseMessage.m4AckBundles (.fromVotes votes) = msg at hh
  cases hh with
  | m1Known | m1New | m2Unknown | m2SameBlock | m2 | m3 | m7 => cases hmsg
  | @m4 m4 ab hab =>
    obtain rfl := CoinbaseMessage.m4AckBundles.inj hmsg
    have hlt := fun id sc hsc => (hs.grown.proposals.1 id sc hsc).lt
    have hnodup : (done.filterMap CoinbaseMessage.m2Slot).Nodup := by
      have hm2 := hone.m2
      rw [List.filterMap_append] at hm2
      exact (List.nodup_append.mp hm2).1
    have hnum := ran_numbers hdone hlt (hs.grown.votesLow hage) hnodup
      (fun id sc hack => hno id sc (List.mem_append_left _ hack))
    rw [handleM4AckBundles_fromVotes] at hab
    have hactions := handleM4Votes_actions hab
    rw [hnum] at hactions
    refine List.forall₂_iff_zip.mpr ⟨hfit.length_eq,?_⟩
    intro s vote hmem p hpend
    obtain ⟨q,hq,hpre,-⟩ := ran_pendingKeys hdone hw hpend
    have hcode : (s,M4AckBundles.twoByteVote vote) ∈
        dbs.activeSidechains.numbers.zip (votes.map M4AckBundles.twoByteVote) := by
      rw [List.zip_map_right,List.mem_map]
      exact ⟨(s,vote),hmem,rfl⟩
    rw [ackBundles_snoc (ran_noVotes hdone hfirst),hactions _ hcode q hq]
    refine enacts_voteAction hpre (hfits vote (List.of_mem_zip hmem).2) ?_
      (fun m6id info hi => votes_below_max hs hmax hone hdone hq hi)
    intro index hindex
    obtain ⟨p',hp',hidx⟩ := (List.forall₂_zip hfit hmem) index hindex
    obtain rfl := Option.some.inj (hpend.symm.trans hp')
    exact hidx

theorem getHeaderInfo_tip {h : BlockHandler} {tip : BlockHash} (hs : Synced h V False dbs c)
    (htip : dbs.currentChainTip = some tip) {info : HeaderInfo}
    (hinfo : dbs.blockHashes.getHeaderInfo tip = .ok info) : info.height+1 = c.length := by
  have hc := hs.tip
  rw [htip] at hc
  cases c with
  | nil => cases hc
  | cons b c =>
    obtain rfl := Option.some.inj hc
    obtain ⟨header,-,hinfo⟩ := Fallible.bind_ok.mp hinfo
    obtain ⟨-,-,hinfo⟩ := Fallible.bind_ok.mp hinfo
    obtain ⟨height,hheight,hinfo⟩ := Fallible.bind_ok.mp hinfo
    rw [Database.get_ok,BlockHashDbs.linked_height hs.headers hs.linked] at hheight
    obtain rfl := Option.some.inj hheight
    rw [Fallible.pure_ok] at hinfo
    rw [← hinfo]
    rfl

/-- A block whose coinbase the node produced on top of the tip, without other transactions,
is accepted under the thresholds of a network. Its `M4` is read as the votes that were
resolved for the active slots, and the block does in each slot what the vote says. -/
theorem extendCoinbaseTxouts_accepted (hpush : ∀ data : List UInt8, data.length < 2^32 →
      instructions (newOpReturn data) = [some (.op opReturn),some (.pushBytes data)])
    (fork : Fork) (network : Network) (hp : params.thresholds = .forNetwork fork network)
    (hr : Reach (.new params) V False dbs c) {tip : BlockHash} (htip : dbs.currentChainTip = some tip)
    {order : List (SidechainNumber × SidechainProposal) → List (SidechainNumber × SidechainProposal)}
    {ackPolicy : AckAllProposalsPolicy} {outs outs' : List TxOut}
    (hnone : ∀ out ∈ outs, CoinbaseMessage.parse out.scriptPubkey = none)
    (he : extendCoinbaseTxouts order params dbs stored ackPolicy bundlePolicy tip outs = .ok outs')
    {b : Block} {coinbase : Transaction} (hparent : b.header.prevBlockhash = tip)
    (htx : b.txdata = [coinbase]) (hout : coinbase.output = outs')
    (hfits : dbs.blockHashes.HeaderFits b.header c.length) :
    ∃ info dbs', (BlockHandler.new params).partialConnectBlock
        { dbs with blockHashes := dbs.blockHashes.putHeader b.header c.length } b = .ok (info,dbs') ∧
      ∀ m4, .m4AckBundles m4 ∈ coinbase.messages →
        ∃ active bundles votes, Chosen dbs stored bundlePolicy active bundles votes ∧
          (readCodes m4).map (List.map readVote) = some votes ∧
          List.Forall₂ (fun s vote => ∃ p, dbs.activeSidechains.pendingM6ids.get? s = some p ∧
            vote = .resolve bundlePolicy p.keys
              ((stored.bundleAcks.filter (fun e => e.1 = s)).map Prod.snd)
              (((bundles.get? s).getD []).map (fun m => m.1)) ∧
            Enacts p vote ((info.diff.coinbase.msgs.findSome? ackBundlesOfMsg).bind
              (fun ab => ab.actions.get? s))) dbs.activeSidechains.numbers votes := by
  have hs := hr.synced
  have hw := hs.grown.wf.1
  obtain ⟨hage,hmax⟩ := Thresholds.forNetwork_maxAge fork network
  rw [← hp] at hage hmax
  have hlow : VotesLow dbs.toConsensusDbs := hs.grown.votesLow hage
  have hlt : EachProposal dbs.toConsensusDbs (fun _ sc => sc.status.proposalHeight < c.length) :=
    fun id sc hsc => (hs.grown.proposals.1 id sc hsc).lt
  have hheight : (dbs.blockHashes.putHeader b.header c.length).height.get? b.blockHash =
      some c.length := by
    rw [BlockHashDbs.putHeader_height _ _ hfits]
    exact if_pos rfl
  obtain ⟨info₀,hinfo₀,-⟩ := extendCoinbaseTxouts_ok he
  have hnext := getHeaderInfo_tip hs htip hinfo₀
  rcases produced hpush hw hnone he hinfo₀ with ⟨hbelow,rfl⟩ |
    ⟨habove,active,bundles,votes,builder,msgs,exts,hc,hb,rfl,hreads,hprod⟩
  · -- below the activation height nothing is read
    have hproc : (BlockHandler.new params).processBlock dbs.toConsensusDbs c.length
        b.header.prevBlockhash b.blockHash (dbs.blockHashes.diff.get? b.header.prevBlockhash) coinbase
        [] = .ok ⟨dbs.toConsensusDbs,(emptyBlockInfoAndDiff coinbase.computeTxid).1,
          (emptyBlockInfoAndDiff coinbase.computeTxid).2,.default⟩ := by
      rw [processBlock,if_pos (by rw [← hnext]; exact hbelow)]
    refine ⟨_,_,partialConnectBlock_ok.mpr ⟨c.length,coinbase,[],_,
      ⟨by rw [hparent,htip]; rfl,hheight,htx,hproc⟩,rfl,rfl⟩,?_⟩
    intro m4 hm
    obtain ⟨out,ho,hread⟩ := List.mem_filterMap.mp hm
    rw [hnone out (hout ▸ ho)] at hread
    cases hread
  · rw [hnext] at hprod habove
    obtain ⟨scan,hscan,-,hmsgs⟩ := scanCoinbase_built hnone hb hreads hout
    have hone := (scanCoinbase_ok hscan).2
    rw [hmsgs] at hone
    have hfit := hc.votesFit hw
    have hfails : FailsOnly (fun _ => False) ((BlockHandler.new params).connectCoinbase
        dbs.toConsensusDbs c.length b.header.prevBlockhash
        (dbs.blockHashes.diff.get? b.header.prevBlockhash) coinbase) := by
      refine connectCoinbase_fails hw (.of_ok hscan) ?_
      intro done msg rest t ds accepted hsplit hran _
      rw [hmsgs] at hsplit
      rw [hsplit] at hprod hone
      exact produced_message hw hlt hlow hprod hone hfit hran
    obtain ⟨⟨t₂,accepted,events,d⟩,hcon⟩ := hfails.succeeds
    obtain ⟨scan',t₁,hdone⟩ := connectCoinbase_ok hcon
    have hran := hdone.ran
    rw [(scanCoinbase_ok hdone.scanned).1,hmsgs] at hran
    have hproc : (BlockHandler.new params).processBlock dbs.toConsensusDbs c.length
        b.header.prevBlockhash b.blockHash (dbs.blockHashes.diff.get? b.header.prevBlockhash) coinbase
        [] = .ok ⟨t₂,⟨accepted,coinbase.computeTxid,events⟩,⟨d,[]⟩,.default⟩ := by
      have hge : ¬ c.length < (BlockHandler.new params).params.bip300ActivationHeight :=
        Nat.not_lt.mpr habove
      rw [processBlock,if_neg hge,hcon]
      rfl
    refine ⟨_,_,partialConnectBlock_ok.mpr ⟨c.length,coinbase,[],_,
      ⟨by rw [hparent,htip]; rfl,hheight,htx,hproc⟩,rfl,rfl⟩,?_⟩
    intro m4 hm
    rw [hmsgs] at hm
    obtain ⟨hread,henact⟩ := hprod.enacted hs hage hmax hone hfit hran hm
    refine ⟨active,bundles,votes,hc,hread,?_⟩
    refine List.forall₂_iff_zip.mpr ⟨hfit.length_eq,fun hmem => ?_⟩
    obtain ⟨p,hpend,hvote⟩ := List.forall₂_zip (hc.resolved hw) hmem
    exact ⟨p,hpend,hvote,List.forall₂_zip henact hmem p hpend⟩

end Main

end BlockProducer

section Sample

open Sample VoteSample BlockProducer

namespace ProducedSample

def stored : StoredPolicy :=
  ⟨[⟨1,[4,5]⟩],[],FinMap.empty.insert 0 [(9,⟨1,1,⟨2,0,[],[]⟩⟩)],[]⟩

def tip : BlockHash := run.1.currentChainTip.getD allZeros

def outputs : Except GenerateCoinbaseTxouts (List TxOut) :=
  extendCoinbaseTxouts id handler.params run.1 stored .all .all tip [⟨50,[0x51]⟩]

def header (parent : BlockHash) : Header := ⟨4,parent,0,0,0,9⟩

theorem header_prevBlockhash (parent : BlockHash) : (header parent).prevBlockhash = parent := rfl

end ProducedSample

open ProducedSample

theorem extendCoinbaseTxouts_accepted_sample :
    ∃ outs info dbs, outputs = .ok outs ∧ outs.length = 4 ∧
      handler.partialConnectBlock
        { run.1 with blockHashes := run.1.blockHashes.putHeader (header tip) run.2.length }
        ⟨header tip,[⟨2,9,[],outs⟩]⟩ = .ok (info,dbs) := by
  obtain ⟨outs,houts⟩ : ∃ outs, outputs = .ok outs := Fallible.exists_of_isOk (by decide +kernel)
  have hlen : outputs.toOption.map List.length = some 4 := by decide +kernel
  rw [houts] at hlen
  have he : extendCoinbaseTxouts id handler.params run.1 stored .all .all tip [⟨50,[0x51]⟩] =
      .ok outs := houts
  have htip : run.1.currentChainTip = some tip := by decide +kernel
  have hfits : run.1.blockHashes.HeaderFits (header tip) run.2.length := by decide +kernel
  obtain ⟨info,dbs,hcon,-⟩ := extendCoinbaseTxouts_accepted
    (fun _ hdata => Script.instructions_newOpReturn_all hdata) .bitcoin .regtest rfl reach_run htip
    (by decide +kernel) he (b := ⟨header tip,[⟨2,9,[],outs⟩]⟩) 
    (header_prevBlockhash tip) rfl rfl hfits
  exact ⟨outs,info,dbs,houts,Option.some.inj hlen,hcon⟩

end Sample

end Bip300301Enforcer
