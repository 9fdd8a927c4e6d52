import Bip300301Enforcer.Reach
import Bip300301Enforcer.VoteBounds

/-! A slot has at most one bundle with more votes than the inclusion threshold. An upvote for
one bundle is a downvote for the others, and bundles are not pending long enough for a second
one to come above the threshold before the first one is too old. -/
namespace Bip300301Enforcer
open Lib Chain BlockHandler Diff PendingM6ids

theorem Thresholds.forNetwork_inclusion (fork : Fork) (network : Network) :
    (forNetwork fork network).withdrawalBundleMaxAge.toNat+1 <
      3*(forNetwork fork network).withdrawalBundleInclusionThreshold.toNat := by
  cases fork <;> cases network <;> decide

namespace PendingM6ids

/-- What the votes of two bundles of a slot cost. Votes that both have were first given to
one of them, then taken away, and then given to the other. -/
def pairCost (v w : ℕ) : ℕ := v+w+min v w

/-- The votes of any two bundles of a slot are bounded by the time since the first of them
was proposed, for a chain of length `n` and `votes` more votes. -/
def PairsBounded (n votes : ℕ) (p : PendingM6ids) : Prop :=
  ∀ a b i j, a ≠ b → p.get? a = some i → p.get? b = some j →
    pairCost i.voteCount.toNat j.voteCount.toNat+min i.proposalHeight j.proposalHeight ≤ n+3+votes

theorem PairsBounded.of_sublist {n votes : ℕ} {p q : PendingM6ids} (h : PairsBounded n votes p)
    (hsub : q.entries.Sublist p.entries) : PairsBounded n votes q := by
  intro a b i j hab hi hj
  have hget : ∀ m6id info, q.get? m6id = some info → p.get? m6id = some info := by
    intro m6id info hq
    exact OrderMap.mem_entries.mp (hsub.subset (OrderMap.mem_entries.mpr hq))
  exact h a b i j hab (hget a i hi) (hget b j hj)

end PendingM6ids

section Pairs

variable [Bitcoin] {h : BlockHandler} {V : Chain → Block → Prop} {stale : Prop}
  {D : BlockHash → Option Diff.Block} {c : Chain} {t t₀ : ConsensusDbs} {n : ℕ}
  {parent : BlockHash} {prevDiff : Option Diff.Block} {msg : CoinbaseMessage}
  {e : Option CoinbaseMessageEvent} {msgs : List CoinbaseMessage} {ds : List CoinbaseMsg}

/-- An `M4` raises the cost of two bundles by at most one, and no other message does. -/
theorem pairCost_countVotes_le {d : CoinbaseMsg} (hh : Handled h t n parent prevDiff msg e (some d))
    {s : SidechainNumber} (hd : ∀ m, d ≠ .proposeBundle ⟨s,m⟩) {a b : M6id} (hab : a ≠ b)
    (v w : ℕ) : pairCost (d.countVotes s a v) (d.countVotes s b w) ≤
      pairCost v w+([msg].filter CoinbaseMessage.isM4).length := by
  generalize hod : some d = od at hh
  cases hh with
  | m1Known | m2Unknown | m2SameBlock | m7 => cases hod
  | m1New | m2 =>
    obtain rfl := Option.some.inj hod
    exact Nat.le_add_right _ _
  | @m3 s' m p active pending new =>
    obtain rfl := Option.some.inj hod
    have hne : ∀ m6id, (⟨s',m⟩ : ProposeBundle) ≠ ⟨s,m6id⟩ :=
      fun m6id he => hd m6id (congrArg CoinbaseMsg.proposeBundle he)
    simp only [CoinbaseMsg.countVotes,if_neg (hne a),if_neg (hne b)]
    exact Nat.le_add_right _ _
  | @m4 m4 ab votes =>
    split at hod
    · cases hod
    · obtain rfl := Option.some.inj hod
      have hone : ([CoinbaseMessage.m4AckBundles m4].filter CoinbaseMessage.isM4).length = 1 := rfl
      rw [hone]
      simp only [CoinbaseMsg.countVotes]
      -- an upvote of one of them takes a vote from the other, if it has any
      cases ab.actions.get? s with
      | none => exact Nat.le_succ _
      | some action =>
        cases action with
        | alarm positive =>
          simp only [pairCost]
          omega
        | upvote target others =>
          simp only [pairCost]
          split
          · rename_i hta
            have htb : target ≠ b := fun he => hab (hta.symm.trans he)
            rw [if_neg htb]
            omega
          · split <;> omega

/-- The messages of a coinbase keep the bounds of the pairs. -/
theorem ran_pairs {first : ℕ} (hr : Ran h n parent prevDiff t₀ msgs t ds) (hfirst : first ≤ n)
    (hm3 : (msgs.filter CoinbaseMessage.isM3).length ≤ 1)
    (h₀ : EachPending t₀.activeSidechains (BundlesRead first n []))
    (hp₀ : EachPending t₀.activeSidechains (PairsBounded n 0)) :
    EachPending t.activeSidechains (PairsBounded n (msgs.filter CoinbaseMessage.isM4).length) := by
  induction hr with
  | start => exact hp₀
  | @ignored msgs t ds msg e _ _ ih =>
    rw [List.filter_append,List.length_append] at hm3 ⊢
    intro s p hp a b i j hab hi hj
    have := ih (by omega) s p hp a b i j hab hi hj
    omega
  | @applied msgs t t' ds msg e d hran hh ha ih =>
    rw [List.filter_append,List.length_append] at hm3 ⊢
    intro s q hq a b i j hab hi hj
    have hbounds := ran_pending hran hfirst (by omega) h₀
    rcases message_bundles hh ha hq with ⟨-,rfl⟩ | ⟨p,hp,⟨m,-,rfl,hnew,rfl⟩ | ⟨hd,f,rfl,hf⟩⟩
    · cases hi
    · -- the new bundle has one vote, and the other one at most as many as its age allows
      have hI := ih (by omega) s p hp
      have hB := hbounds s p hp
      have hvote : (PendingM6idInfo.new n).voteCount.toNat = 1 := rfl
      have hheight : (PendingM6idInfo.new n).proposalHeight = n := rfl
      rw [OrderMap.get?_insert] at hi hj
      split at hi
      · rename_i hma
        obtain rfl := Option.some.inj hi
        rw [if_neg (fun he => hab (hma.trans he.symm))] at hj
        have := hB.votes b j hj
        simp only [pairCost]
        omega
      · split at hj
        · obtain rfl := Option.some.inj hj
          have := hB.votes a i hi
          simp only [pairCost]
          omega
        · have := hI a b i j hab hi hj
          omega
    · have hI := ih (by omega) s p hp
      rw [OrderMap.get?_mapVals] at hi hj
      obtain ⟨i₀,hi₀,rfl⟩ := Option.map_eq_some_iff.mp hi
      obtain ⟨j₀,hj₀,rfl⟩ := Option.map_eq_some_iff.mp hj
      have hold := hI a b i₀ j₀ hab hi₀ hj₀
      have hcost := pairCost_countVotes_le hh hd hab i₀.voteCount.toNat j₀.voteCount.toNat
      rw [(hf a i₀ hi₀).1,(hf b j₀ hj₀).1,(hf a i₀ hi₀).2,(hf b j₀ hj₀).2]
      omega

theorem Grown.pairsBounded (hg : Grown h V stale D c t) :
    EachPending t.activeSidechains (PairsBounded c.length 0) := by
  refine (Grown.eachPending (P := fun n => PairsBounded n 0)
    (fun n p q hsub hp => hp.of_sublist hsub) ?_ ?_ hg).1
  · intro n a b i j _ hi
    cases hi
  · intro c t t₁ msgs ds parent prevDiff hg hle hI hran hone s p q hp hq
    have hpairs := ran_pairs hran hle hone.m3 (fun s p hp => (hg.pendingBounds s p hp).read) hI s p hp
    have hm4 := hone.m4
    intro a b i j hab hi hj
    have := (hpairs.of_sublist (q := q) (by rw [hq]; exact List.filter_sublist)) a b i j hab hi hj
    omega

theorem approved_unique {params : NetworkParams} {dbs : Dbs} (fork : Fork) (network : Network)
    (hparams : params.thresholds = .forNetwork fork network)
    (hr : Reach (.new params) V stale dbs c) {s : SidechainNumber} {p : PendingM6ids}
    (hp : dbs.activeSidechains.pendingM6ids.get? s = some p) {a b : M6id} {i j : PendingM6idInfo}
    (hi : p.get? a = some i) (hj : p.get? b = some j)
    (hvi : params.thresholds.withdrawalBundleInclusionThreshold < i.voteCount)
    (hvj : params.thresholds.withdrawalBundleInclusionThreshold < j.voteCount) : a = b := by
  by_contra hab
  have hg := hr.synced.grown
  have hpair := hg.pairsBounded s p hp a b i j hab hi hj
  have hages := (hg.pendingBounds s p hp).age
  have hai := hages _ (mem_heights.mpr ⟨a,i,hi,rfl⟩)
  have haj := hages _ (mem_heights.mpr ⟨b,j,hj,rfl⟩)
  have hnet := Thresholds.forNetwork_inclusion fork network
  rw [← hparams] at hnet
  have hth : (BlockHandler.new params).thresholds = params.thresholds := rfl
  rw [hth] at hai haj
  rw [UInt16.lt_iff_toNat_lt] at hvi hvj
  simp only [pairCost] at hpair
  omega

end Pairs

end Bip300301Enforcer
