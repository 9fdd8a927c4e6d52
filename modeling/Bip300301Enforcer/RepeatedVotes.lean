import Mathlib.Data.List.TakeWhile
import Bip300301Enforcer.BundleVotes

/-! `M4` messages that repeat the votes of the block before. They read the diff that is stored
of it, in which a vote that had no effect has left no trace. -/
namespace Bip300301Enforcer
open Lib Chain BlockHandler PendingM6ids Diff

namespace BundleVote

/-- The vote that repeats a vote on other bundles. A bundle that is not pending gets none. -/
def onto (vote : BundleVote) (p : PendingM6ids) : BundleVote :=
  match vote with
  | .upvote m6id => if p.contains m6id then .upvote m6id else .abstain
  | vote => vote

def Effective (vote : BundleVote) (p : PendingM6ids) : Prop :=
  match vote with
  | .upvote m6id => p.contains m6id = true
  | .alarm => positiveVotesProposalsForAlarm p ≠ []
  | .abstain => False

instance (vote : BundleVote) (p : PendingM6ids) : Decidable (vote.Effective p) :=
  match vote with
  | .upvote m6id => inferInstanceAs (Decidable (p.contains m6id = true))
  | .alarm => inferInstanceAs (Decidable (positiveVotesProposalsForAlarm p ≠ []))
  | .abstain => inferInstanceAs (Decidable False)

def action (vote : BundleVote) (p : PendingM6ids) : Option AckBundleAction :=
  match vote with
  | .upvote m6id =>
    if p.contains m6id then some (.upvote m6id (downvotedOthersForUpvote p m6id)) else none
  | .alarm =>
    if (positiveVotesProposalsForAlarm p).isEmpty then none
    else some (.alarm (positiveVotesProposalsForAlarm p))
  | .abstain => none

variable {vote : BundleVote} {p q : PendingM6ids}

theorem action_eq_none : vote.action p = none ↔ ¬ vote.Effective p := by
  cases vote with
  | upvote m6id => simp [action,Effective]
  | alarm =>
    rw [action,Effective,not_not,← List.isEmpty_iff]
    split <;> simp_all
  | abstain => simp [action,Effective]

theorem follows_action (h : Leaves (vote.action p) p q) : (vote.onto p).Follows p q := by
  cases vote with
  | upvote m6id =>
    simp only [action] at h
    simp only [onto]
    split at h
    · rename_i hc
      rw [if_pos hc]
      exact follows_upvote h
    · rename_i hc
      rw [if_neg hc]
      obtain rfl := h
      exact follows_refl (fun _ _ _ => rfl)
  | alarm => exact follows_alarm h
  | abstain =>
    obtain rfl := h
    exact follows_refl (fun _ _ _ => rfl)

/-- Without an action, only a vote without an effect is followed. -/
theorem follows_self : (vote.onto p).Follows p p ↔ ¬ vote.Effective p := by
  constructor
  · intro hf he
    cases vote with
    | upvote m6id =>
      have hc : p.contains m6id = true := he
      obtain ⟨info,hi⟩ := Option.isSome_iff_exists.mp hc
      obtain ⟨info',hi',-,hv⟩ := hf.votes m6id info hi
      obtain rfl := Option.some.inj (hi.symm.trans hi')
      rw [onto,if_pos hc,count,if_pos rfl] at hv
      omega
    | alarm =>
      obtain ⟨m6id,hm⟩ := List.exists_mem_of_ne_nil _ he
      obtain ⟨e,he,rfl⟩ := List.mem_map.mp hm
      have hi := OrderMap.mem_entries.mp (List.mem_filter.mp he).1
      have hne := (AckBundleAction.mem_positiveVotes hi).mp hm
      obtain ⟨info',hi',-,hv⟩ := hf.votes _ _ hi
      obtain rfl := Option.some.inj (hi.symm.trans hi')
      have hz : e.2.voteCount.toNat ≠ 0 := fun h0 => hne (UInt16.toNat_inj.mp h0)
      simp only [onto,count] at hv
      omega
    | abstain => exact he
  · intro hn
    refine follows_action ?_
    rw [action_eq_none.mpr hn]
    rfl

/-- The recorded action of a code. -/
theorem voteAction_eq {code : UInt16}
    (hlow : ∀ m6id info, p.get? m6id = some info → info.voteCount < 0xFFFF)
    (hcode : ofCode p code = some vote) : voteAction p code = vote.action p := by
  unfold ofCode at hcode
  unfold voteAction
  split at hcode
  · rename_i habs
    obtain rfl := Option.some.inj hcode
    exact if_pos habs
  · rename_i habs
    rw [if_neg habs]
    split at hcode
    · rename_i halarm
      obtain rfl := Option.some.inj hcode
      exact if_pos halarm
    · rename_i halarm
      rw [if_neg halarm]
      obtain ⟨m6id,hkey,rfl⟩ := Option.map_eq_some_iff.mp hcode
      rw [OrderMap.keys,List.getElem?_map] at hkey
      obtain ⟨⟨m,info⟩,hentry,rfl⟩ := Option.map_eq_some_iff.mp hkey
      have hi : p.get? m = some info := OrderMap.mem_entries.mp (List.mem_of_getElem? hentry)
      rw [OrderMap.getIndex,hentry,Option.bind_some,if_pos (hlow m info hi),action,if_pos]
      rw [OrderMap.contains,hi]
      rfl

end BundleVote

namespace BlockHandler

variable {t : ConsensusDbs}

/-- A recorded action, made again for other bundles. -/
def repeated (p : PendingM6ids) : AckBundleAction → Option AckBundleAction
  | .upvote target _ => (p.get? target).bind (fun info =>
      if info.voteCount = 0xFFFF then none
      else some (.upvote target (downvotedOthersForUpvote p target)))
  | .alarm _ => if (positiveVotesProposalsForAlarm p).isEmpty then none
      else some (.alarm (positiveVotesProposalsForAlarm p))

theorem repeated_action {vote : BundleVote} {p p' : PendingM6ids}
    (hlow : ∀ m6id info, p'.get? m6id = some info → info.voteCount < 0xFFFF) :
    (vote.action p).bind (repeated p') = if vote.Effective p then vote.action p' else none := by
  by_cases he : vote.Effective p
  · rw [if_pos he]
    cases vote with
    | upvote m6id =>
      have hc : p.contains m6id = true := he
      rw [BundleVote.action,if_pos hc,Option.bind_some,repeated,BundleVote.action,OrderMap.contains]
      cases hi : p'.get? m6id with
      | none => rfl
      | some info =>
        have hne : info.voteCount ≠ 0xFFFF := UInt16.ne_of_lt (hlow m6id info hi)
        rw [Option.bind_some,if_neg hne]
        rfl
    | alarm =>
      have hc : ¬ (positiveVotesProposalsForAlarm p).isEmpty = true :=
        fun hnil => he (List.isEmpty_iff.mp hnil)
      rw [BundleVote.action,if_neg hc]
      rfl
    | abstain => exact he.elim
  · rw [if_neg he,BundleVote.action_eq_none.mpr he]
    rfl

/-- One repeated action is added for its slot, and nothing for other slots. -/
theorem repeatAction_get? {d d' : AckBundles} {e : SidechainNumber × AckBundleAction}
    (hr : repeatAction t d e = .ok d') (hnone : d.actions.get? e.1 = none) :
    (∀ s, s ≠ e.1 → d'.actions.get? s = d.actions.get? s) ∧
      ∀ p, t.activeSidechains.pendingM6ids.get? e.1 = some p →
        d'.actions.get? e.1 = repeated p e.2 := by
  obtain ⟨p,hp,hr⟩ := Fallible.bind_ok.mp hr
  rw [Database.get_ok] at hp
  have hself : ∀ p', t.activeSidechains.pendingM6ids.get? e.1 = some p' → p' = p :=
    fun p' hp' => Option.some.inj (hp'.symm.trans hp)
  obtain ⟨s,a⟩ := e
  cases a with
  | alarm positive =>
    simp only [Fallible.pure_ok] at hr
    subst hr
    refine ⟨fun s' hs' => ?_,fun p' hp' => ?_⟩
    · rw [insertAlarm]
      split
      · rfl
      · exact FinMap.get?_insert_ne _ _ hs'.symm
    · rw [hself p' hp',insertAlarm,repeated]
      split
      · exact hnone
      · exact FinMap.get?_insert_self _ _ _
  | upvote target others =>
    simp only at hr
    cases hi : p.get? target with
    | none =>
      rw [hi] at hr
      simp only [Fallible.pure_ok] at hr
      subst hr
      refine ⟨fun _ _ => rfl,fun p' hp' => ?_⟩
      rw [hself p' hp',repeated,hi]
      exact hnone
    | some info =>
      rw [hi] at hr
      simp only [Fallible.pure_ok] at hr
      subst hr
      refine ⟨fun s' hs' => ?_,fun p' hp' => ?_⟩
      · split
        · rfl
        · exact FinMap.get?_insert_ne _ _ hs'.symm
      · rw [hself p' hp',repeated,hi,Option.bind_some]
        split
        · exact hnone
        · exact FinMap.get?_insert_self _ _ _

/-- The actions of a message that repeats other ones. -/
theorem repeatActions_get? {prev d : AckBundles}
    (hr : prev.actions.toList.foldlM (repeatAction t) .default = .ok d) (s : SidechainNumber)
    (p : PendingM6ids) (hp : t.activeSidechains.pendingM6ids.get? s = some p) :
    d.actions.get? s = (prev.actions.get? s).bind (repeated p) := by
  have hnodup : (prev.actions.toList.map Prod.fst).Nodup := FinMap.nodup_keys _
  have hspec := Fallible.foldlM_prefix (fun done (d : AckBundles) =>
    (∀ s', s' ∉ done.map Prod.fst → d.actions.get? s' = none) ∧
    ∀ a, (s,a) ∈ done → d.actions.get? s = repeated p a) hr ?_ ?_
  · cases ha : prev.actions.get? s with
    | some a => exact hspec.2 a (FinMap.mem_toList.mpr ha)
    | none => exact hspec.1 s (FinMap.not_mem_keys.mpr ha)
  · exact ⟨fun s' _ => FinMap.get?_empty s',fun a ha => by cases ha⟩
  · rintro done e rest d d' hl ⟨hnone,hI⟩ hstep
    have hs : e.1 ∉ done.map Prod.fst := by
      rw [hl,List.map_append,List.map_cons] at hnodup
      intro hm
      exact (List.nodup_append.mp hnodup).2.2 e.1 hm e.1 (List.mem_cons_self ..) rfl
    obtain ⟨hother,hself⟩ := repeatAction_get? hstep (hnone e.1 hs)
    refine ⟨fun s' hs' => ?_,fun a ha => ?_⟩
    · simp only [List.map_append,List.map_cons,List.map_nil,List.mem_append,List.mem_singleton,
        not_or] at hs'
      rw [hother s' hs'.2]
      exact hnone s' hs'.1
    · rcases List.mem_append.mp ha with hdone | hlast
      · have hne : s ≠ e.1 := fun heq => hs (heq ▸ List.mem_map_of_mem (f := Prod.fst) hdone)
        rw [hother s hne]
        exact hI a hdone
      · obtain rfl := List.mem_singleton.mp hlast
        exact hself p hp

/-- The `M4` of a block, with the tables that it meets and the diff that it makes. Below the
activation height none is read. -/
def readM4 [Bitcoin] (h : BlockHandler) (t : ConsensusDbs) (height : ℕ) (b : Block)
    (prevDiff : Option Diff.Block) : Option (M4AckBundles × ConsensusDbs × AckBundles) := do
  guard (h.params.bip300ActivationHeight ≤ height)
  let coinbase ← b.txdata.head?
  let scan ← (scanCoinbase coinbase).toOption
  let done := scan.messages.messages.takeWhile (fun m => !m.1.isM4)
  let acc ← (done.foldlM (h.connectMessage height b.header.prevBlockhash prevDiff
    scan.m1SidechainProposals) ⟨t,.empty,[],[]⟩).toOption
  match scan.messages.messages.dropWhile (fun m => !m.1.isM4) with
  | (.m4AckBundles m4,_)::_ =>
    (handleM4AckBundles acc.dbs b.header.prevBlockhash prevDiff m4).toOption.map
      (fun d => (m4,acc.dbs,d))
  | _ => none

section ReadM4

variable [Bitcoin] {h : BlockHandler} {n : ℕ} {b : Block} {prevDiff : Option Diff.Block}
  {m4 : M4AckBundles} {before : ConsensusDbs} {d : AckBundles}

theorem readM4_some (hr : h.readM4 t n b prevDiff = some (m4,before,d)) :
    h.params.bip300ActivationHeight ≤ n ∧
    ∃ coinbase scan done i rest acc, b.txdata.head? = some coinbase ∧
      scanCoinbase coinbase = .ok scan ∧
      scan.messages.messages = done++(.m4AckBundles m4,i)::rest ∧
      done.foldlM (h.connectMessage n b.header.prevBlockhash prevDiff scan.m1SidechainProposals)
        ⟨t,.empty,[],[]⟩ = .ok acc ∧ acc.dbs = before ∧
      handleM4AckBundles before b.header.prevBlockhash prevDiff m4 = .ok d := by
  obtain ⟨_,hg,hr⟩ := Option.bind_eq_some_iff.mp hr
  obtain ⟨coinbase,hcb,hr⟩ := Option.bind_eq_some_iff.mp hr
  obtain ⟨scan,hscan,hr⟩ := Option.bind_eq_some_iff.mp hr
  obtain ⟨acc,hacc,hr⟩ := Option.bind_eq_some_iff.mp hr
  split at hr
  · rename_i m4' i rest hdrop
    obtain ⟨d',hd,he⟩ := Option.map_eq_some_iff.mp hr
    obtain ⟨rfl,rfl,rfl⟩ : m4' = m4 ∧ acc.dbs = before ∧ d' = d := by simpa using he
    have hle : h.params.bip300ActivationHeight ≤ n := by
      by_contra hlt
      simp [guard,hlt] at hg
    refine ⟨hle,coinbase,scan,_,i,rest,acc,hcb,Fallible.of_toOption hscan,?_,Fallible.of_toOption hacc,rfl,
      Fallible.of_toOption hd⟩
    rw [← hdrop,List.takeWhile_append_dropWhile]
  · cases hr

theorem readM4_resolved (hr : h.readM4 t n b prevDiff = some (m4,before,d)) :
    handleM4AckBundles before b.header.prevBlockhash prevDiff m4 = .ok d := by
  obtain ⟨-,-,-,-,-,-,-,-,-,-,-,-,hd⟩ := readM4_some hr
  exact hd

theorem noVotes_of_handled {msg : CoinbaseMessage} {e : Option CoinbaseMessageEvent}
    {prevBlockHash : BlockHash} {d : Option CoinbaseMsg}
    (hh : Handled h t n prevBlockHash prevDiff msg e d) (hm : msg.isM4 = false) (ab : AckBundles) :
    d ≠ some (.ackBundles ab) := by
  cases hh with
  | m4 votes => cases hm
  | _ => simp

def recordedVotes (ds : List CoinbaseMsg) : Option AckBundles :=
  ds.findSome? (fun
    | .ackBundles ab => some ab
    | _ => none)

omit [Bitcoin] in
theorem recordedVotes_append (ds ds' : List CoinbaseMsg) :
    recordedVotes (ds++ds') = (recordedVotes ds).or (recordedVotes ds') := List.findSome?_append

theorem recordedVotes_foldlM {parent : BlockHash} {proposals : FinMap SidechainProposalId ℕ}
    {acc acc' : CoinbaseState} {l : List (CoinbaseMessage × ℕ)}
    (hf : l.foldlM (h.connectMessage n parent prevDiff proposals) acc = .ok acc')
    (hl : ∀ m ∈ l, m.1.isM4 = false) : recordedVotes acc'.diffs = recordedVotes acc.diffs := by
  refine Fallible.foldlM_prefix (fun _ acc' => recordedVotes acc'.diffs = recordedVotes acc.diffs)
    hf rfl ?_
  intro done m rest acc₁ acc₂ hsplit hI hm
  obtain ⟨event,events,-,-,hcase⟩ := connectMessage_ok hm
  rcases hcase with ⟨-,-,hds⟩ | ⟨d,hh,-,hds⟩
  · rw [hds]
    exact hI
  · rw [hds,recordedVotes_append,hI]
    have hno := noVotes_of_handled hh (hl m (by rw [hsplit]; simp))
    have hnone : recordedVotes [d] = none := by
      cases d with
      | ackBundles ab => exact absurd rfl (hno ab)
      | _ => rfl
    rw [hnone,Option.or_none]

theorem connectCoinbase_msgs {parent : BlockHash} {coinbase : Transaction} {t₂ : ConsensusDbs}
    {accepted : BmmCommitments} {events : List BlockEvent} {dc : Diff.Coinbase} {scan : CoinbaseScan}
    (hc : h.connectCoinbase t n parent prevDiff coinbase = .ok (t₂,accepted,events,dc))
    (hscan : scanCoinbase coinbase = .ok scan) :
    ∃ acc, scan.messages.messages.foldlM (h.connectMessage n parent prevDiff
      scan.m1SidechainProposals) ⟨t,.empty,[],[]⟩ = .ok acc ∧ dc.msgs = acc.diffs := by
  obtain ⟨scan',hscan',hc⟩ := Fallible.bind_ok.mp hc
  obtain rfl := Except.ok.inj (hscan.symm.trans hscan')
  obtain ⟨acc,hacc,hc⟩ := Fallible.bind_ok.mp hc
  rw [connectMissingM4_eq,Fallible.ok_bind] at hc
  obtain ⟨failed,-,hc⟩ := Fallible.bind_ok.mp hc
  obtain ⟨active,-,hc⟩ := Fallible.bind_ok.mp hc
  simp only [Fallible.pure_ok,Prod.mk.injEq] at hc
  obtain ⟨-,-,-,rfl⟩ := hc
  exact ⟨acc,hacc,rfl⟩

end ReadM4

end BlockHandler

section Recorded

variable [Bitcoin] {h : BlockHandler} {D : BlockHash → Option Diff.Block} {c : Chain}
  {t before : ConsensusDbs} {b : Block} {coinbase : Transaction} {txs : List Transaction}
  {res : ProcessedBlock} {m4 : M4AckBundles} {d : AckBundles} {n : ℕ}

/-- An accepted block records the votes of its `M4`, unless they had no effect. -/
theorem Accepted.recordedVotes (ha : Accepted h D c t b coinbase txs res)
    (hr : h.readM4 t c.length b (D b.header.prevBlockhash) = some (m4,before,d)) :
    ackBundlesOf res.diff = if d.actions.isEmpty then none else some d := by
  obtain ⟨hle,coinbase',scan,done,i,rest,acc₁,hcb,hscan,hsplit,hdone,rfl,hd⟩ := readM4_some hr
  rw [ha.txdata] at hcb
  obtain rfl := Option.some.inj hcb
  rcases processBlock_ok ha.processed with
    ⟨hlt,-⟩ | ⟨-,-,t₁,t₂,accepted,events,dc,acc,hcon,-,-,rfl⟩
  · omega
  · obtain ⟨acc₃,hall,hmsgs⟩ := connectCoinbase_msgs hcon hscan
    obtain ⟨hread,hone⟩ := scanCoinbase_ok hscan
    rw [← hread,hsplit,List.map_append,List.map_cons] at hone
    have hm4 := hone.m4
    rw [List.filter_append,List.length_append,List.filter_cons_of_pos rfl,List.length_cons] at hm4
    have hnone : ∀ l : List (CoinbaseMessage × ℕ),
        ((l.map Prod.fst).filter CoinbaseMessage.isM4).length = 0 → ∀ m ∈ l, m.1.isM4 = false := by
      intro l hl m hm
      have := List.filter_eq_nil_iff.mp (List.length_eq_zero_iff.mp hl) m.1
        (List.mem_map_of_mem hm)
      simpa using this
    rw [hsplit,List.foldlM_append,hdone,Fallible.ok_bind,List.foldlM_cons] at hall
    obtain ⟨acc₂,hm,hrest⟩ := Fallible.bind_ok.mp hall
    have h₁ := recordedVotes_foldlM hdone (hnone done (by omega))
    have h₃ := recordedVotes_foldlM hrest (hnone rest (by omega))
    have hof : ackBundlesOf ⟨dc,acc.diffs⟩ = BlockHandler.recordedVotes acc₃.diffs := by
      rw [← hmsgs]
      rfl
    rw [hof,h₃]
    have hstart : BlockHandler.recordedVotes acc₁.diffs = none := h₁
    obtain ⟨event,evs,-,-,hcase⟩ := connectMessage_ok hm
    rcases hcase with ⟨hh,-,hds⟩ | ⟨dm,hh,-,hds⟩
    · rw [hds,hstart]
      generalize hdiff : (none : Option CoinbaseMsg) = o at hh
      cases hh with
      | m4 votes =>
        obtain rfl := Except.ok.inj (hd.symm.trans votes)
        split at hdiff
        · rename_i hemp
          rw [if_pos hemp]
        · cases hdiff
    · rw [hds,recordedVotes_append,hstart,Option.none_or]
      generalize hdiff : some dm = o at hh
      cases hh with
      | m4 votes =>
        obtain rfl := Except.ok.inj (hd.symm.trans votes)
        split at hdiff
        · cases hdiff
        · rename_i hemp
          rw [if_neg hemp,Option.some.inj hdiff]
          rfl

theorem resolved_of_connected {proposals : FinMap SidechainProposalId ℕ} {parent : BlockHash}
    {prevDiff : Option Diff.Block} {i : ℕ} {acc acc' : CoinbaseState}
    (hm : h.connectMessage n parent prevDiff proposals acc (.m4AckBundles m4,i) = .ok acc') :
    ∃ d, handleM4AckBundles acc.dbs parent prevDiff m4 = .ok d := by
  have hhandled : ∀ event od, Handled h acc.dbs n parent prevDiff (.m4AckBundles m4) event od →
      ∃ d, handleM4AckBundles acc.dbs parent prevDiff m4 = .ok d := by
    intro event od hh
    cases hh with
    | m4 votes => exact ⟨_,votes⟩
  obtain ⟨event,evs,-,-,⟨hh,-,-⟩ | ⟨dm,hh,-,-⟩⟩ := connectMessage_ok hm
  · exact hhandled event none hh
  · exact hhandled event (some dm) hh

/-- An accepted block without an `M4` records no votes. -/
theorem Accepted.recordedVotes_none (ha : Accepted h D c t b coinbase txs res)
    (hr : h.readM4 t c.length b (D b.header.prevBlockhash) = none) :
    ackBundlesOf res.diff = none := by
  rcases processBlock_ok ha.processed with
    ⟨-,rfl⟩ | ⟨hle,scan,t₁,t₂,accepted,events,dc,acc,hcon,hc,-,rfl⟩
  · rfl
  · obtain ⟨acc₃,hall,hmsgs⟩ := connectCoinbase_msgs hcon hc.scanned
    have hno : ∀ m ∈ scan.messages.messages, m.1.isM4 = false := by
      cases hdrop : scan.messages.messages.dropWhile (fun m => !m.1.isM4) with
      | nil => simpa using List.dropWhile_eq_nil_iff.mp hdrop
      | cons m rest =>
        have hfirst := List.head?_dropWhile_not (fun m : CoinbaseMessage × ℕ => !m.1.isM4)
          scan.messages.messages
        rw [hdrop,List.head?_cons] at hfirst
        obtain ⟨msg,i⟩ := m
        cases msg with
        | m4AckBundles m4 =>
          have hsplit := List.takeWhile_append_dropWhile (p := fun m => !m.1.isM4)
            (l := scan.messages.messages)
          rw [hdrop] at hsplit
          rw [← hsplit,List.foldlM_append] at hall
          obtain ⟨acc₁,hacc,hrest⟩ := Fallible.bind_ok.mp hall
          obtain ⟨acc₂,hm,-⟩ := Fallible.bind_ok.mp hrest
          obtain ⟨d,hd⟩ := resolved_of_connected hm
          simp [readM4,guard,hle,ha.txdata,hc.scanned,hdrop,hacc,hd,Except.toOption] at hr
        | _ => simp [CoinbaseMessage.isM4] at hfirst
    have hof : ackBundlesOf ⟨dc,acc.diffs⟩ = BlockHandler.recordedVotes acc₃.diffs := by
      rw [← hmsgs]
      rfl
    rw [hof,recordedVotes_foldlM hall hno]
    rfl

end Recorded

/-- A block that casts a vote on a slot with an explicit `M4`, and blocks on top of it that
repeat it, with the bundles of the slot before and after each of these messages. Between the
blocks headers are stored and the mempool changes. -/
inductive RepeatRun [Bitcoin] (h : BlockHandler) (V : Chain → Block → Prop) (s : SidechainNumber)
    (vote : BundleVote) : Dbs → Chain → List (PendingM6ids × PendingM6ids) → Prop
  | explicit {dbs dbs' : Dbs} {c : Chain} {b : Block} {event : Event} {m4 : M4AckBundles}
      {before : ConsensusDbs} {d : AckBundles} {codes : List UInt16} {code : UInt16}
      {p q : PendingM6ids} {a : ActiveSidechainDbs} (reach : Reach h V False dbs c) (valid : V c b)
      (header : dbs.blockHashes.header.get? b.blockHash = some b.header)
      (connected : h.connectBlock dbs b = .ok (event,dbs'))
      (read : h.readM4 dbs.toConsensusDbs c.length b
        (dbs.blockHashes.diff.get? b.header.prevBlockhash) = some (m4,before,d))
      (listed : readCodes m4 = some codes)
      (voted : (s,code) ∈ before.activeSidechains.numbers.zip codes)
      (pending : before.activeSidechains.pendingM6ids.get? s = some p)
      (cast : BundleVote.ofCode p code = some vote)
      (applied : d.apply before.activeSidechains = .ok a) (after : a.pendingM6ids.get? s = some q) :
      RepeatRun h V s vote dbs' (b::c) [(p,q)]
  | next {dbs dbs' : Dbs} {c : Chain} {votes : List (PendingM6ids × PendingM6ids)} {b : Block}
      {event : Event} {before : ConsensusDbs} {d : AckBundles} {p q : PendingM6ids}
      {a : ActiveSidechainDbs} (run : RepeatRun h V s vote dbs c votes) (valid : V c b)
      (header : dbs.blockHashes.header.get? b.blockHash = some b.header)
      (connected : h.connectBlock dbs b = .ok (event,dbs'))
      (read : h.readM4 dbs.toConsensusDbs c.length b
        (dbs.blockHashes.diff.get? b.header.prevBlockhash) = some (.repeatPrevious,before,d))
      (pending : before.activeSidechains.pendingM6ids.get? s = some p)
      (applied : d.apply before.activeSidechains = .ok a) (after : a.pendingM6ids.get? s = some q) :
      RepeatRun h V s vote dbs' (b::c) (votes++[(p,q)])
  | between {dbs dbs' : Dbs} {c : Chain} {votes : List (PendingM6ids × PendingM6ids)}
      (run : RepeatRun h V s vote dbs c votes) (reach : Reach h V False dbs' c)
      (tables : dbs'.toConsensusDbs = dbs.toConsensusDbs)
      (diffs : dbs'.blockHashes.diff = dbs.blockHashes.diff) : RepeatRun h V s vote dbs' c votes

/-- At every message of the run at which the vote has an effect, it had one at all messages
before. -/
def BundleVote.EffectiveFrom (vote : BundleVote) (votes : List (PendingM6ids × PendingM6ids)) :
    Prop :=
  votes.Pairwise (fun e e' => vote.Effective e'.1 → vote.Effective e.1)

section Run

variable [Bitcoin] {h : BlockHandler} {V : Chain → Block → Prop} {s : SidechainNumber}
  {vote : BundleVote} {dbs : Dbs} {c : Chain} {votes : List (PendingM6ids × PendingM6ids)}

theorem RepeatRun.reach (hr : RepeatRun h V s vote dbs c votes) : Reach h V False dbs c := by
  induction hr with
  | explicit hr hv hh hc => exact hr.connect hv hh hc
  | next hr hv hh hc _ _ _ _ ih => exact ih.connect hv hh hc
  | between _ hr => exact hr

def recordedAction (dbs : Dbs) (c : Chain) (s : SidechainNumber) : Option AckBundleAction :=
  ((dbs.blockHashes.diff.get? c.parentHash).bind ackBundlesOf).bind (fun d => d.actions.get? s)

theorem Grown.readM4_low {D : BlockHash → Option Diff.Block} {t before : ConsensusDbs} {b : Block}
    {m4 : M4AckBundles} {d : AckBundles} {prevDiff : Option Diff.Block}
    (hg : Grown h V False D c t) (hmax : h.thresholds.withdrawalBundleMaxAge.toNat+3 < 0xFFFF)
    (hr : h.readM4 t c.length b prevDiff = some (m4,before,d)) :
    BundleVotesLow before := by
  obtain ⟨-,coinbase,scan,done,i,rest,acc,-,hscan,hsplit,hdone,rfl,-⟩ := readM4_some hr
  obtain ⟨hread,hone⟩ := scanCoinbase_ok hscan
  rw [← hread,hsplit,List.map_append] at hone
  have hm3 := hone.m3
  have hm4 := hone.m4
  rw [List.filter_append,List.length_append] at hm3 hm4
  exact hg.bundleVotesLow hmax (ran_foldlM hdone).1 (by omega) (by omega)

theorem Synced.recordedAction_connect {b : Block} {event : Event} {dbs' : Dbs} {m4 : M4AckBundles}
    {before : ConsensusDbs} {d : AckBundles} (hs : Synced h V False dbs c)
    (hh : dbs.blockHashes.header.get? b.blockHash = some b.header)
    (hc : h.connectBlock dbs b = .ok (event,dbs'))
    (hr : h.readM4 dbs.toConsensusDbs c.length b
      (dbs.blockHashes.diff.get? b.header.prevBlockhash) = some (m4,before,d)) :
    b.header.prevBlockhash = c.parentHash ∧ recordedAction dbs' (b::c) s = d.actions.get? s := by
  obtain ⟨coinbase,txs,res,ha,-,-,hdiff⟩ := hs.connected hh hc
  refine ⟨ha.parent,?_⟩
  rw [recordedAction,parentHash_cons,hdiff,FinMap.get?_insert_self,Option.bind_some,
    ha.recordedVotes hr]
  split
  · rename_i hemp
    rw [(FinMap.isEmpty_iff _).mp hemp,FinMap.get?_empty]
    rfl
  · rfl

omit [Bitcoin] in
theorem repeatPrevious_action {t : ConsensusDbs} {parent : BlockHash} {d : AckBundles}
    {prevDiff : Option Diff.Block} {p : PendingM6ids} (hne : parent ≠ allZeros)
    (hd : handleM4AckBundles t parent prevDiff .repeatPrevious = .ok d)
    (hp : t.activeSidechains.pendingM6ids.get? s = some p) :
    d.actions.get? s =
      ((prevDiff.bind ackBundlesOf).bind (fun d => d.actions.get? s)).bind (repeated p) := by
  simp only [handleM4AckBundles,handleM4RepeatPrevious,if_neg hne] at hd
  obtain ⟨prev,hprev,hd⟩ := Fallible.bind_ok.mp hd
  rw [Fallible.require_ok] at hprev
  rw [hprev,Option.bind_some]
  cases hof : ackBundlesOf prev with
  | none =>
    rw [hof] at hd
    obtain rfl := Except.ok.inj hd
    exact FinMap.get?_empty s
  | some ab =>
    rw [hof] at hd
    exact repeatActions_get? hd s p hp

omit [Bitcoin] in
theorem leaves_of_apply {before : ConsensusDbs} {d : AckBundles} {a : ActiveSidechainDbs}
    {p q : PendingM6ids} (hp : before.activeSidechains.pendingM6ids.get? s = some p)
    (ha : d.apply before.activeSidechains = .ok a) (hq : a.pendingM6ids.get? s = some q) :
    BundleVote.Leaves (d.actions.get? s) p q := by
  obtain ⟨q',hq',hleaves⟩ := ackBundles_leaves ha hp
  obtain rfl := Option.some.inj (hq.symm.trans hq')
  exact hleaves

omit [Bitcoin] in
theorem follows_next {p q : PendingM6ids} (hleaves : BundleVote.Leaves
      (if ∀ e ∈ votes, vote.Effective e.1 then vote.action p else none) p q) :
    (vote.onto p).Follows p q ↔ ∀ e ∈ votes, vote.Effective p → vote.Effective e.1 := by
  by_cases hall : ∀ e ∈ votes, vote.Effective e.1
  · rw [if_pos hall] at hleaves
    exact iff_of_true (BundleVote.follows_action hleaves) (fun e he _ => hall e he)
  · rw [if_neg hall] at hleaves
    obtain rfl := hleaves
    rw [BundleVote.follows_self]
    constructor
    · intro hn e _ he
      exact absurd he hn
    · intro himp he
      exact hall (fun e hm => himp e hm he)

/-- What a run has recorded, and when its messages follow the vote. -/
theorem RepeatRun.spec (hmax : h.thresholds.withdrawalBundleMaxAge.toNat+3 < 0xFFFF)
    (hr : RepeatRun h V s vote dbs c votes) :
    c ≠ [] ∧ votes ≠ [] ∧
    (∀ p, (∀ m6id info, p.get? m6id = some info → info.voteCount < 0xFFFF) →
      (recordedAction dbs c s).bind (repeated p) =
        if ∀ e ∈ votes, vote.Effective e.1 then vote.action p else none) ∧
    ((∀ e ∈ votes.tail, (vote.onto e.1).Follows e.1 e.2) ↔ vote.EffectiveFrom votes) := by
  induction hr with
  | @explicit dbs dbs' c b event m4 before d codes code p q a hr hv hh hc hread hcodes hcode hp hvote
      ha hq =>
    have hs := hr.synced
    have hlow := hs.grown.readM4_low hmax hread
    refine ⟨by simp,by simp,fun p' hp' => ?_,by simp [BundleVote.EffectiveFrom]⟩
    have hd := readM4_resolved hread
    rw [(hs.recordedAction_connect hh hc hread).2,
      handleM4Votes_actions (handleM4AckBundles_codes hcodes hd) (s,code) hcode p hp,
      BundleVote.voteAction_eq (hlow s p hp) hvote,repeated_action hp']
    simp
  | @next dbs dbs' c votes b event before d p q a hr hv hh hc hread hp ha hq ih =>
    obtain ⟨hne,hvotes,hrec,hiff⟩ := ih
    have hs := hr.reach.synced
    have hlow := hs.grown.readM4_low hmax hread
    obtain ⟨hparent,hrec'⟩ := hs.recordedAction_connect (s := s) hh hc hread
    have hd := readM4_resolved hread
    have hzero : b.header.prevBlockhash ≠ allZeros := by
      rw [hparent]
      exact fun hz => hne (parentHash_eq_zeros.mp hz)
    have hact := repeatPrevious_action hzero hd hp
    rw [hparent] at hact
    have hact' : d.actions.get? s =
        if ∀ e ∈ votes, vote.Effective e.1 then vote.action p else none :=
      hact.trans (hrec p (hlow s p hp))
    refine ⟨by simp,by simp,fun p' hp' => ?_,?_⟩
    · rw [hrec',hact']
      by_cases hall : ∀ e ∈ votes, vote.Effective e.1
      · rw [if_pos hall,repeated_action hp']
        refine if_congr ?_ rfl rfl
        simp only [List.mem_append,List.mem_singleton]
        constructor
        · rintro he e (hm | rfl)
          · exact hall e hm
          · exact he
        · intro hmem
          exact hmem (p,q) (.inr rfl)
      · rw [if_neg hall,if_neg (fun hmem => hall (fun e hm => hmem e (List.mem_append_left _ hm)))]
        rfl
    · have hleaves := leaves_of_apply hp ha hq
      rw [hact'] at hleaves
      have hnext := follows_next hleaves
      rw [BundleVote.EffectiveFrom,List.pairwise_append,List.tail_append_of_ne_nil hvotes]
      simp only [List.mem_append,List.mem_singleton,List.pairwise_singleton,true_and]
      have hsplit : (∀ e, e ∈ votes.tail ∨ e = (p,q) → (vote.onto e.1).Follows e.1 e.2) ↔
          (∀ e ∈ votes.tail, (vote.onto e.1).Follows e.1 e.2) ∧ (vote.onto p).Follows p q := by
        constructor
        · intro hall
          exact ⟨fun e he => hall e (.inl he),hall (p,q) (.inr rfl)⟩
        · rintro ⟨hall,hlast⟩ e (he | rfl)
          · exact hall e he
          · exact hlast
      rw [hsplit,hiff,hnext,BundleVote.EffectiveFrom]
      simp
  | @between dbs dbs' c votes hr hreach htables hdiffs ih =>
    have hsame : recordedAction dbs' c s = recordedAction dbs c s := by
      rw [recordedAction,recordedAction,hdiffs]
    rw [hsame]
    exact ih

/-- Under the thresholds of a network, every message of a run changes the bundles of the slot
as the vote that it repeats exactly when the vote had an effect at all messages before one at
which it has an effect. -/
theorem repeat_previous_iff (params : NetworkParams) (fork : Fork) (network : Network)
    (hp : params.thresholds = .forNetwork fork network)
    (hr : RepeatRun (.new params) V s vote dbs c votes) :
    (∀ e ∈ votes.tail, (vote.onto e.1).Follows e.1 e.2) ↔ vote.EffectiveFrom votes := by
  have hage := (Thresholds.forNetwork_maxAge fork network).2
  rw [← hp] at hage
  have halarm : M4AckBundles.alarmTwoBytes.toNat = 0xFFFE := rfl
  have hsame : (BlockHandler.new params).thresholds = params.thresholds := rfl
  exact (hr.spec (by rw [hsame]; omega)).2.2.2

end Run

section Sample

open Sample VoteSample

namespace RepeatSample

def repeatScript : Script := Script.newOpReturn (CoinbaseMessage.m4Tag++[0x00])

def blocks (scripts scripts' : List Script) : List Block :=
  blocksOn allZeros 0 (contents.take 8++[(scripts,[]),(scripts',[])])

def start (scripts scripts' : List Script) : Dbs × Chain :=
  let blocks := blocks scripts scripts'
  Call.runAll handler (fun _ _ => True)
    (blocks.zipIdx.map (fun e => .header e.1.header e.2)++(blocks.take 8).map .connect)

theorem reach_start (scripts scripts' : List Script) :
    Reach handler (fun _ _ => True) False (start scripts scripts').1 (start scripts scripts').2 :=
  Call.reach_connects _ _

def connected (dbs : Dbs) (b : Block) : Dbs :=
  ((handler.connectBlock dbs b).toOption.map Prod.snd).getD dbs

theorem connected_eq {dbs : Dbs} {b : Block} (h : (handler.connectBlock dbs b).isOk = true) :
    ∃ event, handler.connectBlock dbs b = .ok (event,connected dbs b) := by
  obtain ⟨⟨event,dbs'⟩,hc⟩ := Fallible.exists_of_isOk h
  refine ⟨event,?_⟩
  rw [connected,hc]
  rfl

def around (dbs : Dbs) (c : Chain) (b : Block) :
    Option (M4AckBundles × List SidechainNumber × PendingM6ids × PendingM6ids) := do
  let (m4,before,d) ← handler.readM4 dbs.toConsensusDbs c.length b
    (dbs.blockHashes.diff.get? b.header.prevBlockhash)
  let p ← before.activeSidechains.pendingM6ids.get? 0
  let a ← (d.apply before.activeSidechains).toOption
  let q ← a.pendingM6ids.get? 0
  return (m4,before.activeSidechains.numbers,p,q)

theorem around_some {dbs : Dbs} {c : Chain} {b : Block} {m4 : M4AckBundles}
    {slots : List SidechainNumber} {p q : PendingM6ids}
    (h : around dbs c b = some (m4,slots,p,q)) :
    ∃ before d a, handler.readM4 dbs.toConsensusDbs c.length b
        (dbs.blockHashes.diff.get? b.header.prevBlockhash) = some (m4,before,d) ∧
      before.activeSidechains.numbers = slots ∧
      before.activeSidechains.pendingM6ids.get? 0 = some p ∧
      d.apply before.activeSidechains = .ok a ∧ a.pendingM6ids.get? 0 = some q := by
  obtain ⟨⟨m4',before,d⟩,hread,h⟩ := Option.bind_eq_some_iff.mp h
  obtain ⟨p',hp,h⟩ := Option.bind_eq_some_iff.mp h
  obtain ⟨a,ha,h⟩ := Option.bind_eq_some_iff.mp h
  obtain ⟨q',hq,h⟩ := Option.bind_eq_some_iff.mp h
  obtain ⟨rfl,rfl,rfl,rfl⟩ : m4' = m4 ∧ before.activeSidechains.numbers = slots ∧ p' = p ∧ q' = q := by
    simpa using h
  exact ⟨before,d,a,hread,rfl,hp,Fallible.of_toOption ha,hq⟩

def voting (scripts scripts' : List Script) : Block :=
  ((blocks scripts scripts')[8]?).getD (blockOn allZeros 0 [] [])

def repeating (scripts scripts' : List Script) : Block :=
  ((blocks scripts scripts')[9]?).getD (blockOn allZeros 0 [] [])

theorem repeatRun (scripts scripts' : List Script) (upvotes : List UInt8) (code : UInt16)
    {vote : BundleVote} (e e' : PendingM6ids × PendingM6ids)
    (hb : (start scripts scripts').1.blockHashes.header.get? (voting scripts scripts').blockHash =
      some (voting scripts scripts').header)
    (hc : (handler.connectBlock (start scripts scripts').1 (voting scripts scripts')).isOk = true)
    (h : around (start scripts scripts').1 (start scripts scripts').2 (voting scripts scripts') =
      some (.oneByte upvotes,[0],e.1,e.2))
    (hcode : readCodes (.oneByte upvotes) = some [code])
    (hvote : BundleVote.ofCode e.1 code = some vote)
    (hb' : (connected (start scripts scripts').1 (voting scripts scripts')).blockHashes.header.get?
      (repeating scripts scripts').blockHash = some (repeating scripts scripts').header)
    (hc' : (handler.connectBlock (connected (start scripts scripts').1 (voting scripts scripts'))
      (repeating scripts scripts')).isOk = true)
    (h' : around (connected (start scripts scripts').1 (voting scripts scripts'))
      (voting scripts scripts'::(start scripts scripts').2) (repeating scripts scripts') =
      some (.repeatPrevious,[0],e'.1,e'.2)) :
    ∃ dbs c, RepeatRun handler (fun _ _ => True) 0 vote dbs c [e,e'] := by
  obtain ⟨event,hcon⟩ := connected_eq hc
  obtain ⟨event',hcon'⟩ := connected_eq hc'
  obtain ⟨before,d,a,hread,hslots,hp,ha,hq⟩ := around_some h
  obtain ⟨before',d',a',hread',-,hp',ha',hq'⟩ := around_some h'
  have hmem : (0,code) ∈ before.activeSidechains.numbers.zip [code] := by
    rw [hslots]
    exact List.mem_singleton.mpr rfl
  have hrun := RepeatRun.explicit (reach_start scripts scripts') trivial hb hcon hread hcode hmem hp
    hvote ha hq
  exact ⟨_,_,hrun.next trivial hb' hcon' hread' hp' ha' hq'⟩

def bundle (votes : UInt16) (proposed : ℕ) : PendingM6ids :=
  OrderMap.empty.insert 7 ⟨votes,proposed⟩

theorem upvote_run : ∃ dbs c, RepeatRun handler (fun _ _ => True) 0 (.upvote 7) dbs c
    [(bundle 1 8,bundle 2 8),(bundle 2 8,bundle 3 8)] :=
  repeatRun [m3Script 0 7,m4Script [0]] [repeatScript] [0] 0 (bundle 1 8,bundle 2 8)
    (bundle 2 8,bundle 3 8) (by decide +kernel) (by decide +kernel) (by decide +kernel)
    (by decide +kernel) (by decide +kernel) (by decide +kernel) (by decide +kernel)
    (by decide +kernel)

theorem alarm_run : ∃ dbs c, RepeatRun handler (fun _ _ => True) 0 .alarm dbs c
    [(OrderMap.empty,OrderMap.empty),(bundle 1 9,bundle 1 9)] :=
  repeatRun [m4Script [M4AckBundles.alarmOneByte]] [m3Script 0 7,repeatScript]
    [M4AckBundles.alarmOneByte] M4AckBundles.alarmTwoBytes (OrderMap.empty,OrderMap.empty)
    (bundle 1 9,bundle 1 9)
    (by decide +kernel) (by decide +kernel) (by decide +kernel) (by decide +kernel)
    (by decide +kernel) (by decide +kernel) (by decide +kernel) (by decide +kernel)

end RepeatSample

open RepeatSample

theorem repeat_previous_iff_sample :
    ∃ dbs c, RepeatRun handler (fun _ _ => True) 0 (.upvote 7) dbs c
        [(bundle 1 8,bundle 2 8),(bundle 2 8,bundle 3 8)] ∧
      ((BundleVote.upvote 7).onto (bundle 2 8)).Follows (bundle 2 8) (bundle 3 8) := by
  obtain ⟨dbs,c,hr⟩ := upvote_run
  have hiff := repeat_previous_iff handler.params .bitcoin .regtest rfl hr
  have heff : (BundleVote.upvote 7).EffectiveFrom
      [(bundle 1 8,bundle 2 8),(bundle 2 8,bundle 3 8)] := by
    unfold BundleVote.EffectiveFrom
    decide +kernel
  exact ⟨dbs,c,hr,hiff.mpr heff _ (List.mem_singleton.mpr rfl)⟩

/-- An alarm that had no effect is not repeated. -/
theorem repeat_previous_loses_alarm :
    ¬ ∀ (s : SidechainNumber) (vote : BundleVote) (dbs : Dbs) (c : Chain)
      (votes : List (PendingM6ids × PendingM6ids)),
      RepeatRun handler (fun _ _ => True) s vote dbs c votes →
        ∀ e ∈ votes.tail, (vote.onto e.1).Follows e.1 e.2 := by
  intro hall
  obtain ⟨dbs,c,hr⟩ := alarm_run
  have hfollows := hall 0 .alarm dbs c _ hr (bundle 1 9,bundle 1 9) (List.mem_singleton.mpr rfl)
  exact BundleVote.follows_self.mp hfollows (by decide +kernel)

end Sample

end Bip300301Enforcer
