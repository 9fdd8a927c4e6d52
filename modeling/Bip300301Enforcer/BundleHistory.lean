import Bip300301Enforcer.Chain
import Bip300301Enforcer.CoinbaseScan

/-! Where pending bundles come from: each of them was proposed by a block of the
chain, has not been paid since, and its votes are the tally of the recorded votes. -/
namespace Bip300301Enforcer
open Lib Chain

namespace Diff

/-- The votes of a bundle after a coinbase message. A new proposal starts with
one vote, and votes do not fall below zero. -/
def CoinbaseMsg.countVotes (s : SidechainNumber) (m6id : M6id) (votes : ℕ) : CoinbaseMsg → ℕ
  | .proposeBundle d => if d = ⟨s,m6id⟩ then 1 else votes
  | .ackBundles d =>
    match d.actions.get? s with
    | some (.upvote target _) => if target = m6id then votes+1 else votes-1
    | some (.alarm _) => votes-1
    | none => votes
  | _ => votes

def tally (s : SidechainNumber) (m6id : M6id) (votes : ℕ) (msgs : List CoinbaseMsg) : ℕ :=
  msgs.foldl (CoinbaseMsg.countVotes s m6id) votes

def Pays (s : SidechainNumber) (m6id : M6id) (txs : List Tx) : Prop :=
  ∃ d, .m6 d ∈ txs ∧ d.sidechainNumber = s ∧ d.removedPendingWithdrawal = m6id

/-- A message changes the votes of the pending bundles of a slot, and nothing else. -/
def CoinbaseMsg.Revotes (d : CoinbaseMsg) (s : SidechainNumber) (p q : PendingM6ids) : Prop :=
  ∃ f, q = p.mapVals f ∧ ∀ m6id info, p.get? m6id = some info →
    (f m6id info).proposalHeight = info.proposalHeight ∧
    (f m6id info).voteCount.toNat = d.countVotes s m6id info.voteCount.toNat

theorem CoinbaseMsg.revotes_refl {d : CoinbaseMsg} {s : SidechainNumber} {p : PendingM6ids}
    (h : ∀ m6id v, d.countVotes s m6id v = v) : d.Revotes s p p :=
  ⟨fun _ info => info,(OrderMap.mapVals_eq_self (fun _ _ _ => rfl)).symm,
    fun _ _ _ => ⟨rfl,(h _ _).symm⟩⟩

end Diff

theorem toNat_add_one {v : UInt16} (h : v ≠ 0xFFFF) : (v+1).toNat = v.toNat+1 := by
  have hlt := v.toNat_lt
  have hne : v.toNat ≠ 65535 := fun he => h (UInt16.toNat_inj.mp he)
  rw [UInt16.toNat_add]
  have : (1 : UInt16).toNat = 1 := rfl
  omega

theorem toNat_downvote (info : PendingM6idInfo) :
    (ActiveSidechainDbs.downvote info).voteCount.toNat = info.voteCount.toNat-1 := by
  unfold ActiveSidechainDbs.downvote
  by_cases hz : info.voteCount = 0
  · rw [if_pos hz,hz]; rfl
  · rw [if_neg hz]
    have hle : (1 : UInt16) ≤ info.voteCount := by
      rw [UInt16.le_iff_toNat_le]
      have hne : info.voteCount.toNat ≠ 0 := fun he => hz (UInt16.toNat_inj.mp he)
      have : (1 : UInt16).toNat = 1 := rfl
      omega
    exact UInt16.toNat_sub_of_le _ _ hle

theorem downvote_proposalHeight (info : PendingM6idInfo) :
    (ActiveSidechainDbs.downvote info).proposalHeight = info.proposalHeight := by
  unfold ActiveSidechainDbs.downvote
  split <;> rfl

/-- An upvote counts for its bundle and against the others that have votes. -/
theorem upvotePending_votes {target : M6id} {p q : PendingM6ids}
    (ha : Diff.AckBundleAction.upvotePending target (downvotedOthersForUpvote p target) p = .ok q) :
    ∃ f, q = p.mapVals f ∧ ∀ m6id info, p.get? m6id = some info →
      (f m6id info).proposalHeight = info.proposalHeight ∧ (f m6id info).voteCount.toNat =
        if m6id = target then info.voteCount.toNat+1 else info.voteCount.toNat-1 := by
  have ht : target ∉ downvotedOthersForUpvote p target := by
    intro hm
    obtain ⟨info,hi⟩ := Diff.AckBundleAction.mem_keys_of_mem_downvotedOthers hm
    exact ((Diff.AckBundleAction.mem_downvotedOthers hi).mp hm).1 rfl
  obtain ⟨info₀,hinfo₀,hmax,rfl⟩ := Diff.AckBundleAction.upvotePending_ok
    (Diff.AckBundleAction.nodup_downvotedOthers p target) ht ha
  refine ⟨_,rfl,?_⟩
  intro m6id info hi
  simp only [Diff.AckBundleAction.upvoted]
  by_cases hm : m6id = target
  · subst hm
    obtain rfl := Option.some.inj (hinfo₀.symm.trans hi)
    simp only [if_true]
    exact ⟨rfl,toNat_add_one hmax⟩
  · simp only [hm,if_false]
    by_cases ho : m6id ∈ downvotedOthersForUpvote p target
    · rw [if_pos ho]
      exact ⟨downvote_proposalHeight info,toNat_downvote info⟩
    · rw [if_neg ho]
      rw [Diff.AckBundleAction.mem_downvotedOthers hi] at ho
      have hz : info.voteCount = 0 := by
        by_contra hz
        exact ho ⟨hm,hz⟩
      rw [hz]
      exact ⟨rfl,rfl⟩

namespace BlockHandler
open Diff ActiveSidechainDbs

variable {h : BlockHandler} {t t' : ConsensusDbs} {height : ℕ} {parent : BlockHash}
  {prevDiff : Option Diff.Block} {msg : CoinbaseMessage} {e : Option CoinbaseMessageEvent}

theorem revotes_upvote {d : AckBundles} {s : SidechainNumber} {target : M6id} {others : List M6id}
    {p q : PendingM6ids} (hd : d.actions.get? s = some (.upvote target others))
    (hothers : others = downvotedOthersForUpvote p target)
    (ha : AckBundleAction.upvotePending target others p = .ok q) :
    (CoinbaseMsg.ackBundles d).Revotes s p q := by
  subst hothers
  obtain ⟨f,rfl,hf⟩ := upvotePending_votes ha
  refine ⟨f,rfl,fun m6id info hi => ?_⟩
  obtain ⟨hheight,hvotes⟩ := hf m6id info hi
  refine ⟨hheight,?_⟩
  simp only [CoinbaseMsg.countVotes,hd,hvotes,eq_comm]

theorem revotes_alarm {d : AckBundles} {s : SidechainNumber} {positive : List M6id}
    {p : PendingM6ids} (hd : d.actions.get? s = some (.alarm positive)) :
    (CoinbaseMsg.ackBundles d).Revotes s p (p.mapVals (fun _ info => downvote info)) := by
  refine ⟨_,rfl,?_⟩
  intro m6id info _
  simp only [CoinbaseMsg.countVotes,hd]
  exact ⟨downvote_proposalHeight info,toNat_downvote info⟩

theorem ack_bundles {d : AckSidechainProposal} (ha : d.apply t height = .ok t')
    {s : SidechainNumber} {q : PendingM6ids} (hq : t'.activeSidechains.pendingM6ids.get? s = some q) :
    (t.activeSidechains.pendingM6ids.get? s = none ∧ q = .empty) ∨
      t.activeSidechains.pendingM6ids.get? s = some q := by
  obtain ⟨sc,hsc,-,rfl⟩ := AckSidechainProposal.apply_ok.mp ha
  split at hq
  · exact .inr hq
  · simp only [AckSidechainProposal.activate,putSidechain] at hq
    split at hq
    · exact .inr hq
    · rename_i hno
      rw [FinMap.get?_insert] at hq
      split at hq
      · rename_i hs
        subst hs
        refine .inl ⟨?_,(Option.some.inj hq).symm⟩
        exact (FinMap.contains_false_iff _ _).mp (by simpa using hno)
      · exact .inr hq

theorem votes_bundles {m4 : M4AckBundles} {d : AckBundles}
    (hv : handleM4AckBundles t parent prevDiff m4 = .ok d)
    (ha : (CoinbaseMsg.ackBundles d).apply t height = .ok t') {s : SidechainNumber} {q : PendingM6ids}
    (hq : t'.activeSidechains.pendingM6ids.get? s = some q) :
    ∃ p, t.activeSidechains.pendingM6ids.get? s = some p ∧ (CoinbaseMsg.ackBundles d).Revotes s p q := by
  obtain ⟨a,hp,ha⟩ := Fallible.bind_ok.mp ha
  obtain ⟨m,rfl,h₁,h₂⟩ := AckBundles.apply_ok hp
  rw [Fallible.pure_ok] at ha
  subst ha
  simp only at hq
  cases hs : d.actions.get? s with
  | none =>
    rw [h₂ s hs] at hq
    refine ⟨q,hq,CoinbaseMsg.revotes_refl (fun m6id v => ?_)⟩
    simp only [CoinbaseMsg.countVotes,hs]
  | some a =>
    obtain ⟨p,q',hp,happ,hq'⟩ := h₁ s a hs
    obtain rfl := Option.some.inj (hq.symm.trans hq')
    obtain ⟨p',hp',hap⟩ := made_handleM4AckBundles hv s a hs
    obtain rfl := Option.some.inj (hp.symm.trans hp')
    refine ⟨p,hp,?_⟩
    cases a with
    | alarm positive =>
      obtain rfl := Except.ok.inj happ
      exact revotes_alarm hs
    | upvote target others => exact revotes_upvote hs hap.1 happ

variable [Bitcoin]

/-- What a coinbase message does to the pending bundles of each slot: a new slot
has none, an `M3` adds one, and every other message changes votes only. -/
theorem message_bundles {d : CoinbaseMsg} (hh : Handled h t height parent prevDiff msg e (some d))
    (ha : d.apply t height = .ok t') {s : SidechainNumber} {q : PendingM6ids}
    (hq : t'.activeSidechains.pendingM6ids.get? s = some q) :
    (t.activeSidechains.pendingM6ids.get? s = none ∧ q = .empty) ∨
    ∃ p, t.activeSidechains.pendingM6ids.get? s = some p ∧
      ((∃ m6id, d = .proposeBundle ⟨s,m6id⟩ ∧ msg = .m3ProposeBundle s m6id ∧ m6id ∉ p.keys ∧
          q = p.insert m6id (.new height)) ∨
        ((∀ m6id, d ≠ .proposeBundle ⟨s,m6id⟩) ∧ d.Revotes s p q)) := by
  generalize hd : some d = od at hh
  cases hh with
  | m1Known | m2Unknown | m2SameBlock | m7 => cases hd
  | @m1New s' description new =>
    obtain rfl := Option.some.inj hd
    obtain rfl := Except.ok.inj ha
    exact .inr ⟨q,hq,.inr ⟨by simp,CoinbaseMsg.revotes_refl (fun _ _ => rfl)⟩⟩
  | @m2 s' dh sc pending earlier votes =>
    obtain rfl := Option.some.inj hd
    cases ack_bundles ha hq with
    | inl hnew => exact .inl hnew
    | inr hold => exact .inr ⟨q,hold,.inr ⟨by simp,CoinbaseMsg.revotes_refl (fun _ _ => rfl)⟩⟩
  | @m3 s' m6id p active pending new =>
    obtain rfl := Option.some.inj hd
    obtain ⟨a,hp,ha⟩ := Fallible.bind_ok.mp ha
    obtain ⟨p',q',hp',hq',rfl⟩ := withPendingWithdrawals_ok.mp hp
    rw [Fallible.pure_ok] at ha
    subst ha
    obtain rfl := Option.some.inj (pending.symm.trans hp')
    obtain rfl := Except.ok.inj hq'
    simp only [FinMap.get?_insert] at hq
    split at hq
    · rename_i hs
      subst hs
      exact .inr ⟨p,pending,.inl ⟨m6id,rfl,rfl,new,(Option.some.inj hq).symm⟩⟩
    · rename_i hs
      refine .inr ⟨q,hq,.inr ⟨?_,CoinbaseMsg.revotes_refl ?_⟩⟩
      · intro m he
        exact hs (congrArg ProposeBundle.sidechainNumber (CoinbaseMsg.proposeBundle.inj he))
      · intro m v
        simp only [CoinbaseMsg.countVotes]
        rw [if_neg]
        intro he
        exact hs (congrArg ProposeBundle.sidechainNumber he)
  | @m4 m4 ab votes =>
    split at hd
    · cases hd
    · obtain rfl := Option.some.inj hd
      obtain ⟨p,hp,hrevotes⟩ := votes_bundles votes ha hq
      exact .inr ⟨p,hp,.inr ⟨by simp,hrevotes⟩⟩

end BlockHandler

section History
open Diff

variable [Bitcoin]

def ProposedAt (c : Chain) (s : SidechainNumber) (m6id : M6id) (k : ℕ) : Prop :=
  ∃ above b below, c = above++b::below ∧ below.length = k ∧ .m3ProposeBundle s m6id ∈ b.messages

/-- No block from this height on has paid the bundle. -/
def UnpaidSince (D : BlockHash → Option Diff.Block) (c : Chain) (s : SidechainNumber) (m6id : M6id)
    (k : ℕ) : Prop :=
  ∀ above b below d, c = above++b::below → k ≤ below.length → D b.blockHash = some d →
    ¬ Pays s m6id d.txs

def netVotes (D : BlockHash → Option Diff.Block) (s : SidechainNumber) (m6id : M6id) : Chain → ℕ
  | [] => 0
  | b::c =>
    match D b.blockHash with
    | some d => tally s m6id (netVotes D s m6id c) d.coinbase.msgs
    | none => netVotes D s m6id c

structure BundleKnown (D : BlockHash → Option Diff.Block) (c : Chain) (s : SidechainNumber)
    (m6id : M6id) (info : PendingM6idInfo) : Prop where
  proposed : ProposedAt c s m6id info.proposalHeight
  unpaid : UnpaidSince D c s m6id info.proposalHeight
  votes : netVotes D s m6id c = info.voteCount.toNat

/-- Where a pending bundle comes from, within a block that is on top of a chain. -/
structure BundleRead (D : BlockHash → Option Diff.Block) (c : Chain) (msgs : List CoinbaseMessage)
    (ds : List CoinbaseMsg) (s : SidechainNumber) (m6id : M6id) (info : PendingM6idInfo) : Prop where
  proposed : ProposedAt c s m6id info.proposalHeight ∨
    (info.proposalHeight = c.length ∧ .m3ProposeBundle s m6id ∈ msgs)
  unpaid : UnpaidSince D c s m6id info.proposalHeight
  votes : tally s m6id (netVotes D s m6id c) ds = info.voteCount.toNat

def EachBundle (dbs : ActiveSidechainDbs) (P : SidechainNumber → M6id → PendingM6idInfo → Prop) :
    Prop :=
  ∀ s p m6id info, dbs.pendingM6ids.get? s = some p → p.get? m6id = some info → P s m6id info

omit [Bitcoin] in
theorem length_lt_of_split {c above below : Chain} {b : Block} (h : c = above++b::below) :
    below.length < c.length := by
  rw [h,List.length_append,List.length_cons]
  omega

theorem ProposedAt.cons {c : Chain} {s : SidechainNumber} {m6id : M6id} {k : ℕ} (b : Block)
    (h : ProposedAt c s m6id k) : ProposedAt (b::c) s m6id k := by
  obtain ⟨above,b',below,rfl,hk,hm⟩ := h
  exact ⟨b::above,b',below,rfl,hk,hm⟩

theorem UnpaidSince.cons {D : BlockHash → Option Diff.Block} {c : Chain} {s : SidechainNumber}
    {m6id : M6id} {k : ℕ} {b : Block} (h : UnpaidSince D c s m6id k)
    (hb : ∀ d, D b.blockHash = some d → ¬ Pays s m6id d.txs) : UnpaidSince D (b::c) s m6id k := by
  intro above b' below d hsplit hk hd
  cases above with
  | nil =>
    obtain ⟨rfl,rfl⟩ := List.cons.inj hsplit
    exact hb d hd
  | cons a above =>
    obtain ⟨-,hsplit⟩ := List.cons.inj hsplit
    exact h above b' below d hsplit hk hd

section Coinbase
open BlockHandler

variable {h : BlockHandler} {D : BlockHash → Option Diff.Block} {c : Chain} {parent : BlockHash}
  {prevDiff : Option Diff.Block} {t₀ t : ConsensusDbs} {msgs : List CoinbaseMessage}
  {ds : List CoinbaseMsg}

/-- The messages of a coinbase keep the history of every bundle. -/
theorem ran_bundles (hr : Ran h c.length parent prevDiff t₀ msgs t ds)
    (h₀ : EachBundle t₀.activeSidechains (BundleKnown D c)) :
    EachBundle t.activeSidechains (BundleRead D c msgs ds) := by
  induction hr with
  | start =>
    intro s p m6id info hp hi
    obtain ⟨hprop,hun,hv⟩ := h₀ s p m6id info hp hi
    exact ⟨.inl hprop,hun,hv⟩
  | ignored _ _ ih =>
    intro s p m6id info hp hi
    obtain ⟨hprop,hun,hv⟩ := ih s p m6id info hp hi
    exact ⟨hprop.imp_right (fun hm => ⟨hm.1,List.mem_append_left _ hm.2⟩),hun,hv⟩
  | @applied msgs t t' ds msg e d _ hh ha ih =>
    intro s q m6id info hq hi
    have htally : tally s m6id (netVotes D s m6id c) (ds++[d]) =
        d.countVotes s m6id (tally s m6id (netVotes D s m6id c) ds) := by
      simp [tally]
    rcases message_bundles hh ha hq with ⟨-,rfl⟩ | ⟨p,hp,⟨m,hd,hm,hnew,rfl⟩ | ⟨-,f,rfl,hf⟩⟩
    · cases hi
    · rw [OrderMap.get?_insert] at hi
      by_cases hmm : m6id = m
      · -- the bundle that this message proposes
        subst hmm
        rw [if_pos rfl] at hi
        obtain rfl := Option.some.inj hi
        refine ⟨.inr ⟨rfl,by simp [hm]⟩,?_,?_⟩
        · intro above b below d hsplit hk
          have hlt := length_lt_of_split hsplit
          have hheight : (PendingM6idInfo.new c.length).proposalHeight = c.length := rfl
          omega
        · rw [htally,hd]
          simp [CoinbaseMsg.countVotes,PendingM6idInfo.new]
      · rw [if_neg hmm] at hi
        obtain ⟨hprop,hun,hv⟩ := ih s p m6id info hp hi
        refine ⟨hprop.imp_right (fun hm => ⟨hm.1,List.mem_append_left _ hm.2⟩),hun,?_⟩
        rw [htally,hv,hd,CoinbaseMsg.countVotes,if_neg]
        intro he
        exact hmm (congrArg ProposeBundle.m6id he).symm
    · rw [OrderMap.get?_mapVals] at hi
      obtain ⟨info₀,hi₀,rfl⟩ := Option.map_eq_some_iff.mp hi
      obtain ⟨hprop,hun,hv⟩ := ih s p m6id info₀ hp hi₀
      obtain ⟨hheight,hvotes⟩ := hf m6id info₀ hi₀
      refine ⟨?_,by rw [hheight]; exact hun,by rw [htally,hv,hvotes]⟩
      rw [hheight]
      exact hprop.imp_right (fun hm => ⟨hm.1,List.mem_append_left _ hm.2⟩)

/-- After the coinbase no pending bundle is too old. -/
theorem BlockHandler.CoinbaseDone.bundles {coinbase : Transaction} {scan : CoinbaseScan} {t₁ t₂ : ConsensusDbs}
    {events : List BlockEvent} {d : Coinbase}
    (hc : CoinbaseDone h t₀ c.length parent prevDiff coinbase scan t₁ t₂ events d) (hw : t₀.Wf)
    (h₀ : EachBundle t₀.activeSidechains (BundleKnown D c)) :
    EachBundle t₂.activeSidechains (fun s m6id info =>
      BundleRead D c coinbase.messages d.msgs s m6id info ∧
        c.length-info.proposalHeight ≤ h.thresholds.withdrawalBundleMaxAge.toNat) := by
  have hran := hc.ran
  rw [(scanCoinbase_ok hc.scanned).1] at hran
  have hread := ran_bundles hran h₀
  obtain ⟨m,hm,hkeep,hnone⟩ := failedM6ids_apply (ran_wf hran hw).tables hc.failedM6ids hc.applied
  intro s q m6id info hq hi
  rw [hm] at hq
  cases hp : t₁.activeSidechains.pendingM6ids.get? s with
  | none =>
    rw [hnone s hp] at hq
    cases hq
  | some p =>
    obtain ⟨q',hq',hentries⟩ := hkeep s p hp
    obtain rfl := Option.some.inj (hq.symm.trans hq')
    have hmem := OrderMap.mem_entries.mpr hi
    rw [hentries,List.mem_filter] at hmem
    refine ⟨hread s p m6id info hp (OrderMap.mem_entries.mp hmem.1),?_⟩
    have hage := hmem.2
    simp only [expired,Bool.not_eq_true',decide_eq_false_iff_not] at hage
    omega

end Coinbase

section Txs
open BlockHandler

variable {h : BlockHandler} {tx : Transaction} {acc acc' : TxState}
  {infos : FinMap SidechainNumber TxCtipsInfo} {res : Option DepositsOrSuccessfulWithdrawal}

/-- The bundles that are still pending within a block were pending before its
transactions, and none of these has paid them. -/
def PendingLeft (dbs : ActiveSidechainDbs) (acc : TxState) : Prop :=
  ∀ s p, acc.dbs.pendingM6ids.get? s = some p → ∃ p₀, dbs.pendingM6ids.get? s = some p₀ ∧
    ∀ m6id info, p.get? m6id = some info → p₀.get? m6id = some info ∧ ¬ Pays s m6id acc.diffs

omit [Bitcoin] in
theorem pendingLeft_refl (hnil : acc.diffs = []) : PendingLeft acc.dbs acc := by
  intro s p hp
  refine ⟨p,hp,fun m6id info hi => ⟨hi,?_⟩⟩
  rintro ⟨d,hd,-⟩
  rw [hnil] at hd
  cases hd

omit [Bitcoin] in
theorem pays_append {s : SidechainNumber} {m6id : M6id} {l : List Tx} {x : Tx}
    (hp : Pays s m6id (l++[x])) :
    Pays s m6id l ∨ ∃ d, x = .m6 d ∧ d.sidechainNumber = s ∧ d.removedPendingWithdrawal = m6id := by
  obtain ⟨d,hd,hs,hm⟩ := hp
  rcases List.mem_append.mp hd with hd | hd
  · exact .inl ⟨d,hd,hs,hm⟩
  · exact .inr ⟨d,(List.mem_singleton.mp hd).symm,hs,hm⟩

theorem PendingLeft.step {dbs : ActiveSidechainDbs} (hl : PendingLeft dbs acc)
    (hd : TxDone h acc tx acc' infos res) : PendingLeft dbs acc' := by
  obtain ⟨-,hpend⟩ := hd.pending
  have heff := hd.effect
  have ho := hd.outcome
  intro s p hp
  match res with
  | none =>
    obtain ⟨-,-,hds⟩ := heff
    rw [hpend] at hp
    rw [hds]
    exact hl s p hp
  | some (.m5Deposits deposits d) =>
    obtain ⟨-,-,hds⟩ := heff
    rw [hpend] at hp
    obtain ⟨p₀,hp₀,hall⟩ := hl s p hp
    refine ⟨p₀,hp₀,fun m6id info hi => ⟨(hall m6id info hi).1,?_⟩⟩
    rw [hds]
    intro hpays
    rcases pays_append hpays with hpays | ⟨d',hd',-⟩
    · exact (hall m6id info hi).2 hpays
    · cases hd'
  | some (.m6Withdrawal s' m6id' n d) =>
    obtain ⟨-,-,hds⟩ := heff
    obtain ⟨p',hp',hpend⟩ := hpend
    obtain ⟨info',-,-,hm,rfl,-⟩ := ho
    have hslot := makeM6_sidechainNumber hm
    rw [hpend,FinMap.get?_insert] at hp
    rw [hds]
    split at hp
    · rename_i hs
      subst hs
      obtain rfl := Option.some.inj hp
      obtain ⟨p₀,hp₀,hall⟩ := hl s' p' hp'
      refine ⟨p₀,hp₀,fun m6id info hi => ?_⟩
      rw [OrderMap.get?_remove] at hi
      split at hi
      · cases hi
      · rename_i hne
        refine ⟨(hall m6id info hi).1,fun hpays => ?_⟩
        rcases pays_append hpays with hpays | ⟨d',hd',-,hm'⟩
        · exact (hall m6id info hi).2 hpays
        · obtain rfl := Tx.m6.inj hd'
          exact hne hm'.symm
    · rename_i hs
      obtain ⟨p₀,hp₀,hall⟩ := hl s p hp
      refine ⟨p₀,hp₀,fun m6id info hi => ⟨(hall m6id info hi).1,fun hpays => ?_⟩⟩
      rcases pays_append hpays with hpays | ⟨d',hd',hs',-⟩
      · exact (hall m6id info hi).2 hpays
      · obtain rfl := Tx.m6.inj hd'
        exact hs (hslot.symm.trans hs')

end Txs

section Grown
open BlockHandler

variable {h : BlockHandler} {V : Chain → Block → Prop} {stale : Prop}
  {D : BlockHash → Option Diff.Block} {c : Chain} {t : ConsensusDbs}

theorem Accepted.messages {b : Block} {coinbase : Transaction} {txs : List Transaction}
    {res : ProcessedBlock} (ha : Accepted h D c t b coinbase txs res) :
    b.messages = coinbase.messages := by
  simp [Block.messages,ha.txdata]

theorem BundleRead.known {b : Block} {ds : List CoinbaseMsg} {d : Diff.Block} {s : SidechainNumber}
    {m6id : M6id} {info : PendingM6idInfo} (hr : BundleRead D c b.messages ds s m6id info)
    (hd : D b.blockHash = some d) (hds : d.coinbase.msgs = ds) (hp : ¬ Pays s m6id d.txs) :
    BundleKnown D (b::c) s m6id info := by
  refine ⟨?_,hr.unpaid.cons ?_,?_⟩
  · rcases hr.proposed with hprop | ⟨hk,hm⟩
    · exact hprop.cons b
    · exact ⟨[],b,c,rfl,hk.symm,hm⟩
  · intro d' hd'
    obtain rfl := Option.some.inj (hd.symm.trans hd')
    exact hp
  · rw [netVotes,hd]
    simp only [hds]
    exact hr.votes

/-- Every pending bundle of a chain has its history in the chain. -/
theorem Grown.bundles (hg : Grown h V stale D c t) :
    EachBundle t.activeSidechains (BundleKnown D c) := by
  induction hg with
  | base hb =>
    obtain ⟨i,hi,-⟩ := hb.bare.active
    intro s p m6id info hp
    rw [hi] at hp
    simp [ActiveSidechainDbs.empty,ActiveSidechainDbs.setIndex] at hp
  | @connect c t t' b coinbase txs res hg hv ha hs hl ih =>
    obtain ⟨⟨i,hi,-⟩,-⟩ := hl
    have hpending : t'.activeSidechains.pendingM6ids = res.dbs.activeSidechains.pendingM6ids := by
      rw [hi]; rfl
    intro s p m6id info hp hinfo
    rw [hpending] at hp
    rcases processBlock_ok ha.processed with
      ⟨-,rfl⟩ | ⟨-,scan,t₁,t₂,accepted,events,d,acc,-,hc,hf,rfl⟩
    · obtain ⟨hprop,hun,hv⟩ := ih s p m6id info hp hinfo
      have hread : BundleRead D c b.messages [] s m6id info := ⟨.inl hprop,hun,hv⟩
      refine hread.known hs rfl ?_
      rintro ⟨d,hd,-⟩
      cases hd
    · have hread := hc.bundles hg.wf.1 ih
      have hleft := Fallible.foldlM_invariant (PendingLeft t₂.activeSidechains) hf
        (pendingLeft_refl rfl) (fun tx acc acc' _ hI hstep => by
          obtain ⟨infos,r,hd⟩ := connectTx_ok hstep
          exact hI.step hd)
      obtain ⟨p₀,hp₀,hall⟩ := hleft s p hp
      obtain ⟨hi₀,hunpaid⟩ := hall m6id info hinfo
      have hr := (hread s p₀ m6id info hp₀ hi₀).1
      rw [← ha.messages] at hr
      exact hr.known hs rfl hunpaid

end Grown

end History

end Bip300301Enforcer
