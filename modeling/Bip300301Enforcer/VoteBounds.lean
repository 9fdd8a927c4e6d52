import Bip300301Enforcer.ProposalHistory

/-! Bounds on the votes and the number of pending proposals and bundles. They come
from the age at which these fail, and from the one vote that a block can give. -/
namespace Bip300301Enforcer
open Lib Chain

def Thresholds.proposalMaxAge (th : Thresholds) : ℕ :=
  max th.withdrawalBundleMaxAge.toNat th.unusedSidechainSlotProposalMaxAge.toNat

/-- The bounds of a pending proposal on top of a chain of this length. -/
structure ProposalBounds (th : Thresholds) (n : ℕ) (sc : Sidechain) : Prop where
  votes : sc.status.voteCount.toNat+sc.status.proposalHeight+1 ≤ n
  age : n ≤ sc.status.proposalHeight+1+th.proposalMaxAge

namespace PendingM6ids

def heights (p : PendingM6ids) : List ℕ := p.entries.map (fun e => e.2.proposalHeight)

theorem mem_heights {p : PendingM6ids} {k : ℕ} :
    k ∈ heights p ↔ ∃ m6id info, p.get? m6id = some info ∧ info.proposalHeight = k := by
  rw [heights,List.mem_map]
  constructor
  · rintro ⟨⟨m6id,info⟩,hm,rfl⟩
    exact ⟨m6id,info,OrderMap.mem_entries.mp hm,rfl⟩
  · rintro ⟨m6id,info,hi,rfl⟩
    exact ⟨(m6id,info),OrderMap.mem_entries.mpr hi,rfl⟩

theorem heights_mapVals {p : PendingM6ids} {f : M6id → PendingM6idInfo → PendingM6idInfo}
    (hf : ∀ m6id info, p.get? m6id = some info → (f m6id info).proposalHeight = info.proposalHeight) :
    heights (p.mapVals f) = heights p := by
  simp only [heights,OrderMap.mapVals,List.map_map]
  refine List.map_congr_left ?_
  rintro ⟨m6id,info⟩ hm
  exact hf m6id info (OrderMap.mem_entries.mp hm)

theorem heights_insert {p : PendingM6ids} {m6id : M6id} {info : PendingM6idInfo}
    (h : m6id ∉ p.keys) : heights (p.insert m6id info) = heights p++[info.proposalHeight] := by
  rw [heights,OrderMap.insert_of_not_mem _ h,List.map_append]
  rfl

/-- The bounds of the pending bundles of a slot, for a chain of length `n`. The bundles
of the block that is being read may be among them, and `votes` of its votes. -/
structure Bounded (first n votes : ℕ) (p : PendingM6ids) : Prop where
  increasing : (heights p).Pairwise (· < ·)
  first : ∀ k ∈ heights p, first ≤ k
  votes : ∀ m6id info, p.get? m6id = some info →
    info.voteCount.toNat+info.proposalHeight ≤ n+1+votes

theorem length_le_of_increasing {l : List ℕ} {a b : ℕ} (hl : l.Pairwise (· < ·))
    (hlow : ∀ k ∈ l, a ≤ k) (hhigh : ∀ k ∈ l, k < b) : l.length ≤ b-a := by
  have hsub : l ⊆ List.range' a (b-a) := by
    intro k hk
    have h₁ := hlow k hk
    have h₂ := hhigh k hk
    rw [List.mem_range']
    exact ⟨k-a,by omega,by omega⟩
  have hnodup : l.Nodup := hl.imp (fun h => Nat.ne_of_lt h)
  have hlen := (List.subperm_of_subset hnodup hsub).length_le
  rwa [List.length_range'] at hlen

theorem len_eq (p : PendingM6ids) : (heights p).length = p.len := by
  simp [heights,OrderMap.len]

theorem Bounded.of_sublist {first n votes : ℕ} {p q : PendingM6ids} (h : Bounded first n votes p)
    (hsub : q.entries.Sublist p.entries) : Bounded first n votes q := by
  have hheights : (heights q).Sublist (heights p) := hsub.map _
  refine ⟨h.increasing.sublist hheights,fun k hk => h.first k (hheights.subset hk),?_⟩
  intro m6id info hi
  exact h.votes m6id info
    (OrderMap.mem_entries.mp (hsub.subset (OrderMap.mem_entries.mpr hi)))

end PendingM6ids

section Bounds
open BlockHandler Diff PendingM6ids

variable [Bitcoin] {h : BlockHandler} {V : Chain → Block → Prop}
  {D : BlockHash → Option Diff.Block} {c : Chain} {t t' t₀ : ConsensusDbs} {n : ℕ}
  {parent : BlockHash} {prevDiff : Option Diff.Block} {msg : CoinbaseMessage}
  {e : Option CoinbaseMessageEvent} {msgs : List CoinbaseMessage} {ds : List CoinbaseMsg}

theorem Grown.proposalBounds (hg : Grown h V False D c t) :
    EachProposal t (fun _ sc => ProposalBounds h.thresholds c.length sc) := by
  intro id sc hsc
  have hk := hg.proposals.1 id sc hsc
  have hvotes : acksAbove id _ c+_+1 ≤ c.length := acksAbove_le hk.lt
  refine ⟨by rw [hk.votes]; exact hvotes,?_⟩
  cases hg with
  | base hb =>
    rw [(hb.empty not_false).2] at hsc
    cases hsc
  | @connect c t₀ _ b coinbase txs res hg hv ha hs hl =>
    obtain ⟨t₁,-,-,hleft⟩ := ha.proposalsRead hg.wf.1 hg.proposals.1
    rw [hl.2] at hsc
    have hfail := (hleft id sc hsc).2.1
    unfold proposalFailed at hfail
    simp only [Bool.or_eq_false_iff,decide_eq_false_iff_not] at hfail
    have hle := hfail.1
    rw [List.length_cons,Thresholds.proposalMaxAge]
    split at hle <;> omega

/-- Something holds of the pending bundles of every slot. -/
def EachPending (dbs : ActiveSidechainDbs) (P : PendingM6ids → Prop) : Prop :=
  ∀ s p, dbs.pendingM6ids.get? s = some p → P p

/-- A message gives a bundle at most one vote, and only an `M4` does. -/
theorem countVotes_le {d : CoinbaseMsg} (hh : Handled h t n parent prevDiff msg e (some d))
    {s : SidechainNumber} (hd : ∀ m, d ≠ .proposeBundle ⟨s,m⟩) (m6id : M6id) (v : ℕ) :
    d.countVotes s m6id v ≤ v+([msg].filter CoinbaseMessage.isM4).length := by
  generalize hod : some d = od at hh
  cases hh with
  | m1Known | m2Unknown | m2SameBlock | m7 => cases hod
  | m1New | m2 =>
    obtain rfl := Option.some.inj hod
    exact Nat.le_add_right _ _
  | @m3 s' m p active pending new =>
    obtain rfl := Option.some.inj hod
    simp only [CoinbaseMsg.countVotes]
    split
    · rename_i he
      obtain ⟨rfl,rfl⟩ := ProposeBundle.mk.inj he
      exact absurd rfl (hd _)
    · exact Nat.le_add_right _ _
  | @m4 m4 ab votes =>
    split at hod
    · cases hod
    · obtain rfl := Option.some.inj hod
      have hone : ([CoinbaseMessage.m4AckBundles m4].filter CoinbaseMessage.isM4).length = 1 := rfl
      rw [hone]
      simp only [CoinbaseMsg.countVotes]
      split
      · split <;> omega
      · omega
      · omega

structure BundlesRead (first n : ℕ) (msgs : List CoinbaseMessage) (p : PendingM6ids) : Prop extends
    Bounded first n (msgs.filter CoinbaseMessage.isM4).length p where
  last : ∀ k ∈ heights p, k < n+(msgs.filter CoinbaseMessage.isM3).length

omit [Bitcoin] in
theorem BundlesRead.mono {first : ℕ} {p : PendingM6ids} (hp : BundlesRead first n msgs p)
    (msg : CoinbaseMessage) : BundlesRead first n (msgs++[msg]) p := by
  refine ⟨⟨hp.increasing,hp.first,?_⟩,?_⟩
  · intro m6id info hi
    have := hp.votes m6id info hi
    rw [List.filter_append,List.length_append]
    omega
  · intro k hk
    have := hp.last k hk
    rw [List.filter_append,List.length_append]
    omega

/-- The messages of a coinbase keep the bounds. At most one of them is an `M3`. -/
theorem ran_pending {first : ℕ} (hr : Ran h n parent prevDiff t₀ msgs t ds) (hfirst : first ≤ n)
    (hm3 : (msgs.filter CoinbaseMessage.isM3).length ≤ 1)
    (h₀ : EachPending t₀.activeSidechains (BundlesRead first n [])) :
    EachPending t.activeSidechains (BundlesRead first n msgs) := by
  induction hr with
  | start => exact h₀
  | @ignored msgs t ds msg e _ _ ih =>
    rw [List.filter_append,List.length_append] at hm3
    intro s p hp
    exact (ih (by omega) s p hp).mono msg
  | @applied msgs t t' ds msg e d _ hh ha ih =>
    rw [List.filter_append,List.length_append] at hm3
    intro s q hq
    rcases message_bundles hh ha hq with ⟨-,rfl⟩ | ⟨p,hp,⟨m,-,hm,hnew,rfl⟩ | ⟨hd,f,rfl,hf⟩⟩
    · refine ⟨⟨List.Pairwise.nil,?_,?_⟩,?_⟩
      · intro k hk; cases hk
      · intro m6id info hi; cases hi
      · intro k hk; cases hk
    · -- the new bundle comes after all others, which were proposed in earlier blocks
      have hI := ih (by omega) s p hp
      subst hm
      have hone : ([CoinbaseMessage.m3ProposeBundle s m].filter CoinbaseMessage.isM3).length = 1 := rfl
      have hzero : (msgs.filter CoinbaseMessage.isM3).length = 0 := by omega
      have hbelow : ∀ k ∈ heights p, k < n := by
        intro k hk
        have := hI.last k hk
        omega
      have hheights : heights (p.insert m (.new n)) = heights p++[n] := heights_insert hnew
      refine ⟨⟨?_,?_,?_⟩,?_⟩
      · rw [hheights,List.pairwise_append]
        refine ⟨hI.increasing,List.pairwise_singleton _ _,?_⟩
        intro k hk k' hk'
        rw [List.mem_singleton] at hk'
        rw [hk']
        exact hbelow k hk
      · rw [hheights]
        intro k hk
        rcases List.mem_append.mp hk with hk | hk
        · exact hI.first k hk
        · rw [List.mem_singleton] at hk
          omega
      · intro m6id info hi
        rw [OrderMap.get?_insert] at hi
        split at hi
        · obtain rfl := Option.some.inj hi
          have hv : (PendingM6idInfo.new n).voteCount.toNat = 1 := rfl
          have hk : (PendingM6idInfo.new n).proposalHeight = n := rfl
          omega
        · have := hI.votes m6id info hi
          rw [List.filter_append,List.length_append]
          omega
      · rw [hheights]
        intro k hk
        rw [List.filter_append,List.length_append,hone]
        rcases List.mem_append.mp hk with hk | hk
        · have := hbelow k hk
          omega
        · rw [List.mem_singleton] at hk
          omega
    · have hI := ih (by omega) s p hp
      have hheights : heights (p.mapVals f) = heights p :=
        heights_mapVals (fun m6id info hi => (hf m6id info hi).1)
      refine ⟨⟨by rw [hheights]; exact hI.increasing,by rw [hheights]; exact hI.first,?_⟩,?_⟩
      · intro m6id info hi
        rw [OrderMap.get?_mapVals] at hi
        obtain ⟨info₀,hi₀,rfl⟩ := Option.map_eq_some_iff.mp hi
        obtain ⟨hheight,hvotes⟩ := hf m6id info₀ hi₀
        have hle := countVotes_le hh hd m6id info₀.voteCount.toNat
        have hold := hI.votes m6id info₀ hi₀
        rw [hheight,hvotes,List.filter_append,List.length_append]
        omega
      · rw [hheights]
        exact (hI.mono msg).last

theorem eachPending_step {acc acc' : TxState} {tx : Transaction}
    {infos : FinMap SidechainNumber TxCtipsInfo} {r : Option DepositsOrSuccessfulWithdrawal}
    {P : PendingM6ids → Prop} (hP : ∀ p q : PendingM6ids, q.entries.Sublist p.entries → P p → P q)
    (hI : EachPending acc.dbs P) (hd : TxDone h acc tx acc' infos r) : EachPending acc'.dbs P := by
  obtain ⟨-,hpend⟩ := hd.pending
  intro s q hq
  match r with
  | none =>
    rw [hpend] at hq
    exact hI s q hq
  | some (.m5Deposits deposits d) =>
    rw [hpend] at hq
    exact hI s q hq
  | some (.m6Withdrawal s' m6id k d) =>
    obtain ⟨p,hp,hpend⟩ := hpend
    rw [hpend,FinMap.get?_insert] at hq
    split at hq
    · rename_i hs
      obtain rfl := Option.some.inj hq
      exact hP p _ List.filter_sublist (hI s' p hp)
    · exact hI s q hq

/-- The bounds of the pending bundles of a slot, for a chain of length `n`. -/
structure PendingBounds (h : BlockHandler) (n : ℕ) (p : PendingM6ids) : Prop extends
    Bounded h.params.bip300ActivationHeight n 0 p where
  last : ∀ k ∈ heights p, k < n
  age : ∀ k ∈ heights p, n ≤ k+1+h.thresholds.withdrawalBundleMaxAge.toNat

omit [Bitcoin] in
theorem PendingBounds.of_sublist {p q : PendingM6ids} (hsub : q.entries.Sublist p.entries)
    (hp : PendingBounds h n p) : PendingBounds h n q := by
  have hheights : (heights q).Sublist (heights p) := hsub.map _
  exact ⟨hp.toBounded.of_sublist hsub,fun k hk => hp.last k (hheights.subset hk),
    fun k hk => hp.age k (hheights.subset hk)⟩

omit [Bitcoin] in
theorem PendingBounds.len_le {p : PendingM6ids} (hp : PendingBounds h n p) :
    p.len ≤ h.thresholds.withdrawalBundleMaxAge.toNat+1 := by
  have hlen := length_le_of_increasing (a := n-1-h.thresholds.withdrawalBundleMaxAge.toNat) (b := n)
    hp.increasing (fun k hk => by have := hp.age k hk; omega) hp.last
  rw [len_eq] at hlen
  omega

omit [Bitcoin] in
theorem PendingBounds.read {p : PendingM6ids} (hp : PendingBounds h n p) :
    BundlesRead h.params.bip300ActivationHeight n [] p :=
  ⟨hp.toBounded,fun k hk => by simpa using hp.last k hk⟩

omit [Bitcoin] in
/-- The bounds after the coinbase of a block. -/
theorem BundlesRead.pending {p q : PendingM6ids}
    (hp : BundlesRead h.params.bip300ActivationHeight n msgs p) (hone : OneEach msgs)
    (hq : q.entries = p.entries.filter (fun e => !h.expired n e)) : PendingBounds h (n+1) q := by
  have hb := hp.toBounded.of_sublist (q := q) (by rw [hq]; exact List.filter_sublist)
  refine ⟨⟨hb.increasing,hb.first,?_⟩,?_,?_⟩
  · intro m6id info hi
    have := hb.votes m6id info hi
    have := hone.m4
    omega
  · intro k hk
    have hsub : (heights q).Sublist (heights p) := by
      refine List.Sublist.map _ ?_
      rw [hq]
      exact List.filter_sublist
    have := hp.last k (hsub.subset hk)
    have := hone.m3
    omega
  · intro k hk
    obtain ⟨m6id,info,hi,rfl⟩ := mem_heights.mp hk
    have hmem := OrderMap.mem_entries.mpr hi
    rw [hq,List.mem_filter] at hmem
    have hage := hmem.2
    simp only [expired,Bool.not_eq_true',decide_eq_false_iff_not] at hage
    omega

/-- To show something of the pending bundles of every chain, show that it holds of all parts
of them, and that it holds after each coinbase once the expired ones are gone. -/
theorem Grown.eachPending {stale : Prop} {P : ℕ → PendingM6ids → Prop}
    (hsub : ∀ n (p q : PendingM6ids), q.entries.Sublist p.entries → P n p → P n q)
    (hempty : ∀ n, P n .empty)
    (hcoinbase : ∀ {c t t₁ msgs ds parent prevDiff}, Grown h V stale D c t →
      h.params.bip300ActivationHeight ≤ c.length → EachPending t.activeSidechains (P c.length) →
      Ran h c.length parent prevDiff t msgs t₁ ds → OneEach msgs →
      ∀ s p q, t₁.activeSidechains.pendingM6ids.get? s = some p →
        q.entries = p.entries.filter (fun e => !h.expired c.length e) → P (c.length+1) q)
    (hg : Grown h V stale D c t) : EachPending t.activeSidechains (P c.length) ∧
      (c.length ≤ h.params.bip300ActivationHeight → EachPending t.activeSidechains (· = .empty)) := by
  induction hg with
  | @base c t hb =>
    obtain ⟨i,hi,-⟩ := hb.bare.active
    have hnone : ∀ s, t.activeSidechains.pendingM6ids.get? s = none := by
      intro s
      rw [hi]
      simp [ActiveSidechainDbs.empty,ActiveSidechainDbs.setIndex]
    constructor
    · intro s p hp
      rw [hnone] at hp
      cases hp
    · intro _ s p hp
      rw [hnone] at hp
      cases hp
  | @connect c t t' b coinbase txs res hg hv ha hs hl ih =>
    obtain ⟨⟨i,hi,-⟩,-⟩ := hl
    have hpending : t'.activeSidechains.pendingM6ids = res.dbs.activeSidechains.pendingM6ids := by
      rw [hi]; rfl
    rcases processBlock_ok ha.processed with
      ⟨hlt,rfl⟩ | ⟨hle,scan,t₁,t₂,accepted,events,d,acc,-,hc,hf,rfl⟩
    · -- nothing can be pending before the activation height
      have hnone := ih.2 (by omega)
      constructor
      · intro s p hp
        rw [hpending] at hp
        rw [hnone s p hp]
        exact hempty _
      · intro _ s p hp
        rw [hpending] at hp
        exact hnone s p hp
    · have hw := hg.wf.1
      obtain ⟨hmsgs,hone⟩ := scanCoinbase_ok hc.scanned
      have hran := hc.ran
      rw [hmsgs] at hran
      obtain ⟨m,hm,hkeep,hnone⟩ := failedM6ids_apply (ran_wf hran hw).tables hc.failedM6ids hc.applied
      have hcoin : EachPending t₂.activeSidechains (P (c.length+1)) := by
        intro s q hq
        rw [hm] at hq
        cases hp : t₁.activeSidechains.pendingM6ids.get? s with
        | none =>
          rw [hnone s hp] at hq
          cases hq
        | some p =>
          obtain ⟨q',hq',hentries⟩ := hkeep s p hp
          obtain rfl := Option.some.inj (hq.symm.trans hq')
          exact hcoinbase hg hle ih.1 hran hone s p q hp hentries
      have hmain := Fallible.foldlM_invariant
        (fun acc => EachPending acc.dbs (P (c.length+1))) hf hcoin
        (fun tx acc acc' _ hI hstep => by
          obtain ⟨infos,r,hd⟩ := connectTx_ok hstep
          exact eachPending_step (hsub _) hI hd)
      constructor
      · intro s p hp
        rw [hpending] at hp
        exact hmain s p hp
      · intro hlt
        rw [List.length_cons] at hlt
        omega

omit [Bitcoin] in
theorem pendingBounds_empty (n : ℕ) : PendingBounds h n .empty := by
  refine ⟨⟨List.Pairwise.nil,?_,?_⟩,?_,?_⟩
  · intro k hk; cases hk
  · intro m6id info hi; cases hi
  · intro k hk; cases hk
  · intro k hk; cases hk

theorem Grown.pendingBounds {stale : Prop} (hg : Grown h V stale D c t) :
    EachPending t.activeSidechains (PendingBounds h c.length) := by
  refine (Grown.eachPending (P := PendingBounds h) (fun n p q => PendingBounds.of_sublist)
    pendingBounds_empty ?_ hg).1
  intro c t t₁ msgs ds parent prevDiff hg hle hI hran hone s p q hp hq
  have hread := ran_pending hran hle hone.m3 (fun s p hp => (hI s p hp).read)
  exact (hread s p hp).pending hone hq

end Bounds
end Bip300301Enforcer
