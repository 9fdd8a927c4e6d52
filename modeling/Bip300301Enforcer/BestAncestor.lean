import Bip300301Enforcer.HeaderProgress

/-! The binary search for the best block of the node's chain whose header is stored. -/
namespace Bip300301Enforcer
open Lib BlockHashDbs

section BestAncestor

variable [Bitcoin]

/-- The loop of `fetch_best_ancestor`, with the heights that the node is asked for. There is
no result while the fuel does not last. -/
def fetchBestAncestorLoop (getblockhash : ℕ → Option BlockHash) (dbs : BlockHashDbs) :
    ℕ → Option (BlockHash × ℕ) → ℕ →
      List ℕ × Option (Except HeaderSyncError (Option (BlockHash × ℕ)))
  | 0, _, _ => ([],none)
  | fuel+1, bestKnownAncestor, oldestKnownMissingAncestorHeight =>
    let bestKnownAncestorHeight := bestKnownAncestor.map Prod.snd
    let midpointHeight := (oldestKnownMissingAncestorHeight+bestKnownAncestorHeight.getD 0)/2
    if some midpointHeight = bestKnownAncestorHeight ∨
        midpointHeight = oldestKnownMissingAncestorHeight then
      ([],some (.ok bestKnownAncestor))
    else
      let (asked,result) := match getblockhash midpointHeight with
        | none => ([],some (.error .jsonRpc))
        | some midpoint =>
          if dbs.header.contains midpoint then
            fetchBestAncestorLoop getblockhash dbs fuel (some (midpoint,midpointHeight))
              oldestKnownMissingAncestorHeight
          else fetchBestAncestorLoop getblockhash dbs fuel bestKnownAncestor midpointHeight
      (midpointHeight::asked,result)

/-- The best ancestor of the node's tip that is stored, with its height. -/
def fetchBestAncestor (getblockhash : ℕ → Option BlockHash) (dbs : BlockHashDbs)
    (nodeTip : BlockHash) (nodeTipHeight : ℕ) :
    List ℕ × Option (Except HeaderSyncError (Option (BlockHash × ℕ))) :=
  if nodeTip = allZeros then ([],some (.ok none))
  else if dbs.header.contains nodeTip then ([],some (.ok (some (nodeTip,nodeTipHeight))))
  else fetchBestAncestorLoop getblockhash dbs (nodeTipHeight+2) none nodeTipHeight

/-- The heights between the best known block and the oldest missing one, with one more while
nothing is known. -/
def searchWidth (best : Option (BlockHash × ℕ)) (missing : ℕ) : ℕ :=
  missing+1-(best.map (fun e => e.2+1)).getD 0

variable {dbs : BlockHashDbs} {chain : List Header} {getblockhash : ℕ → Option BlockHash}

def HeadersMatch (dbs : BlockHashDbs) (chain : List Header) : Prop :=
  ∀ hd ∈ chain, ∀ hd', dbs.header.get? hd.blockHash = some hd' → hd' = hd

def StoredAt (dbs : BlockHashDbs) (chain : List Header) (n : ℕ) : Prop :=
  ∃ hd, chain[n]? = some hd ∧ dbs.header.contains hd.blockHash = true

theorem StoredAt.pred (hclosed : dbs.AncestorClosed) (hlinks : chain.IsChain Header.OnTop)
    (hno : HeadersMatch dbs chain) {n : ℕ} (hs : StoredAt dbs chain (n+1)) : StoredAt dbs chain n := by
  obtain ⟨hd,hget,hstored⟩ := hs
  obtain ⟨hd',hhd'⟩ := (FinMap.contains_iff _ _).mp hstored
  obtain rfl := hno hd (List.mem_of_getElem? hget) hd' hhd'
  obtain ⟨hlt,rfl⟩ := List.getElem?_eq_some_iff.mp hget
  have hon : (chain.get ⟨n+1,hlt⟩).prevBlockhash = (chain.get ⟨n,by omega⟩).blockHash :=
    hlinks.getElem n hlt
  have hne : (chain.get ⟨n+1,hlt⟩).prevBlockhash ≠ allZeros := by
    rw [hon]
    exact Header.blockHash_ne _
  obtain ⟨parent,hparent⟩ := hclosed _ _ hhd' hne
  refine ⟨_,List.getElem?_eq_getElem (show n < chain.length by omega),?_⟩
  exact (FinMap.contains_iff _ _).mpr ⟨parent,hon ▸ hparent⟩

theorem StoredAt.of_le (hclosed : dbs.AncestorClosed) (hlinks : chain.IsChain Header.OnTop)
    (hno : HeadersMatch dbs chain) {m n : ℕ} (hle : m ≤ n) (hs : StoredAt dbs chain n) :
    StoredAt dbs chain m := by
  induction n with
  | zero => rwa [show m = 0 by omega]
  | succ n ih =>
    rcases Nat.lt_or_ge m (n+1) with hlt | hge
    · exact ih (by omega) (hs.pred hclosed hlinks hno)
    · rwa [show m = n+1 by omega]

/-- What the search knows: the best known block is stored, and the block at the missing height
is not. -/
structure Searching (dbs : BlockHashDbs) (chain : List Header) (best : Option (BlockHash × ℕ))
    (missing : ℕ) : Prop where
  best : ∀ k n, best = some (k,n) → n < missing ∧ dbs.header.contains k = true ∧
    ∃ hd, chain[n]? = some hd ∧ hd.blockHash = k
  lt : missing < chain.length
  missing : ¬ StoredAt dbs chain missing

/-- The result of the search: nothing of the chain is stored, or this is its highest stored
block. -/
def IsBest (dbs : BlockHashDbs) (chain : List Header) : Option (BlockHash × ℕ) → Prop
  | none => ∀ n, ¬ StoredAt dbs chain n
  | some (k,n) => (∃ hd, chain[n]? = some hd ∧ hd.blockHash = k) ∧ StoredAt dbs chain n ∧
      ∀ m, StoredAt dbs chain m → m ≤ n

theorem Searching.isBest (hclosed : dbs.AncestorClosed) (hlinks : chain.IsChain Header.OnTop)
    (hno : HeadersMatch dbs chain) {best : Option (BlockHash × ℕ)} {missing : ℕ}
    (hs : Searching dbs chain best missing)
    (hend : some ((missing+(best.map Prod.snd).getD 0)/2) = best.map Prod.snd ∨
      (missing+(best.map Prod.snd).getD 0)/2 = missing) : IsBest dbs chain best := by
  cases best with
  | none =>
    have hzero : missing = 0 := by
      simp only [Option.map_none,Option.getD_none,reduceCtorEq,false_or] at hend
      omega
    intro n hn
    rw [hzero] at hs
    exact hs.missing (hn.of_le hclosed hlinks hno (Nat.zero_le n))
  | some e =>
    obtain ⟨k,n⟩ := e
    obtain ⟨hlt,hstored,hd,hget,rfl⟩ := hs.best k n rfl
    refine ⟨⟨hd,hget,rfl⟩,⟨hd,hget,hstored⟩,fun m hm => ?_⟩
    by_contra hcon
    have hnext : missing ≤ m := by
      simp only [Option.map_some,Option.getD_some,Option.some.injEq] at hend
      omega
    exact hs.missing (hm.of_le hclosed hlinks hno hnext)

/-- One round of the search asks for a height between the two and narrows the search. -/
theorem Searching.next {best : Option (BlockHash × ℕ)} {missing mid : ℕ}
    (hs : Searching dbs chain best missing)
    (hmid : mid = (missing+(best.map Prod.snd).getD 0)/2)
    (hgo : ¬ (some mid = best.map Prod.snd ∨ mid = missing)) :
    ∃ hd, chain[mid]? = some hd ∧
      (dbs.header.contains hd.blockHash = true →
        Searching dbs chain (some (hd.blockHash,mid)) missing ∧
          searchWidth (some (hd.blockHash,mid)) missing < searchWidth best missing) ∧
      (¬ dbs.header.contains hd.blockHash = true →
        Searching dbs chain best mid ∧ searchWidth best mid < searchWidth best missing) := by
  rw [not_or] at hgo
  have hbetween : mid < missing ∧ ∀ k n, best = some (k,n) → n < mid := by
    cases best with
    | none =>
      simp only [Option.map_none,Option.getD_none] at hmid hgo
      exact ⟨by omega,by simp⟩
    | some e =>
      obtain ⟨hlt,-⟩ := hs.best e.1 e.2 rfl
      simp only [Option.map_some,Option.getD_some,Option.some.injEq] at hmid hgo
      refine ⟨by omega,fun k n hkn => ?_⟩
      obtain ⟨rfl,rfl⟩ := Prod.mk.inj (Option.some.inj hkn)
      omega
  obtain ⟨hlt,hbest⟩ := hbetween
  have hbound : mid < chain.length := lt_trans hlt hs.lt
  have hget := List.getElem?_eq_getElem hbound
  have hwidth : ∀ m, searchWidth best m = m+1-(best.map (fun e => e.2+1)).getD 0 := fun _ => rfl
  have hlow : (best.map (fun e => e.2+1)).getD 0 ≤ mid := by
    cases best with
    | none => exact Nat.zero_le _
    | some e => exact hbest e.1 e.2 rfl
  refine ⟨_,hget,fun hstored => ⟨⟨?_,hs.lt,hs.missing⟩,?_⟩,fun hstored => ⟨⟨?_,hbound,?_⟩,?_⟩⟩
  · intro k n hkn
    obtain ⟨rfl,rfl⟩ := Prod.mk.inj (Option.some.inj hkn)
    exact ⟨hlt,hstored,_,hget,rfl⟩
  · rw [hwidth]
    simp only [searchWidth,Option.map_some,Option.getD_some]
    omega
  · intro k n hkn
    obtain ⟨-,hk⟩ := hs.best k n hkn
    exact ⟨hbest k n hkn,hk⟩
  · rintro ⟨hd,hget',hhd⟩
    obtain rfl := Option.some.inj (hget.symm.trans hget')
    exact hstored hhd
  · rw [hwidth,hwidth]
    omega

/-- The search ends with the highest stored block, and asks for heights of the chain only. -/
theorem fetchBestAncestorLoop_ok (hclosed : dbs.AncestorClosed)
    (hlinks : chain.IsChain Header.OnTop) (hno : HeadersMatch dbs chain) {fuel missing : ℕ}
    {best : Option (BlockHash × ℕ)} (hs : Searching dbs chain best missing)
    (hfuel : searchWidth best missing < fuel) :
    ∃ asked r, fetchBestAncestorLoop (fun n => chain[n]?.map Header.blockHash) dbs fuel best missing =
        (asked,some (.ok r)) ∧ IsBest dbs chain r ∧ ∀ n ∈ asked, n < chain.length := by
  induction fuel generalizing best missing with
  | zero => omega
  | succ fuel ih =>
    unfold fetchBestAncestorLoop
    dsimp only
    split
    · rename_i hend
      exact ⟨[],best,rfl,hs.isBest hclosed hlinks hno hend,by simp⟩
    · rename_i hgo
      obtain ⟨hd,hget,hyes,hnot⟩ := hs.next rfl hgo
      have hbound := (List.getElem?_eq_some_iff.mp hget).1
      simp only [hget,Option.map_some]
      split
      · rename_i hstored
        obtain ⟨hs',hwidth⟩ := hyes hstored
        obtain ⟨asked,r,hloop,hbest,hasked⟩ := ih hs' (by omega)
        rw [hloop]
        exact ⟨_,r,rfl,hbest,List.forall_mem_cons.mpr ⟨hbound,hasked⟩⟩
      · rename_i hstored
        obtain ⟨hs',hwidth⟩ := hnot hstored
        obtain ⟨asked,r,hloop,hbest,hasked⟩ := ih hs' (by omega)
        rw [hloop]
        exact ⟨_,r,rfl,hbest,List.forall_mem_cons.mpr ⟨hbound,hasked⟩⟩

/-- The search of a sync of the headers is this loop: it asks for the same blocks and goes on
from the result. -/
theorem search_fetchBestAncestorLoop {answers : NodeAnswers} {mainTip : BlockHash}
    {tipHeight fuel missing : ℕ} {best r : Option (BlockHash × ℕ)} {asked : List ℕ}
    (hloop : fetchBestAncestorLoop (answers.getblockhash 0) dbs fuel best missing =
      (asked,some (.ok r))) :
    (fun s => (HeaderSync.step answers false false true dbs s).1)^[asked.length+1]
        (.search mainTip tipHeight best missing) = HeaderSync.fromAncestor mainTip tipHeight r := by
  induction fuel generalizing best missing asked with
  | zero => cases hloop
  | succ fuel ih =>
    unfold fetchBestAncestorLoop at hloop
    dsimp only at hloop
    rw [Function.iterate_succ_apply]
    split at hloop
    · rename_i hend
      obtain ⟨rfl,hr⟩ := Prod.mk.inj hloop
      obtain rfl : best = r := Except.ok.inj (Option.some.inj hr)
      simp only [HeaderSync.step,HeaderSync.searchStep,if_pos hend]
      rfl
    · rename_i hgo
      obtain ⟨rfl,hr⟩ := Prod.mk.inj hloop
      cases hk : answers.getblockhash 0 ((missing+(best.map Prod.snd).getD 0)/2) with
      | none =>
        rw [hk] at hr
        cases hr
      | some k =>
        simp only [hk] at hr ⊢
        rw [List.length_cons]
        by_cases hstored : dbs.header.contains k = true
        · rw [if_pos hstored] at hr ⊢
          have hstep : (HeaderSync.step answers false false true dbs
              (.search mainTip tipHeight best missing)).1 = .search mainTip tipHeight
                (some (k,(missing+(best.map Prod.snd).getD 0)/2)) missing := by
            simp only [HeaderSync.step,HeaderSync.searchStep,if_neg hgo,hk,if_pos hstored]
          rw [hstep]
          exact ih (Prod.ext rfl hr)
        · rw [if_neg hstored] at hr ⊢
          have hstep : (HeaderSync.step answers false false true dbs
              (.search mainTip tipHeight best missing)).1 = .search mainTip tipHeight
                best ((missing+(best.map Prod.snd).getD 0)/2) := by
            simp only [HeaderSync.step,HeaderSync.searchStep,if_neg hgo,hk,if_neg hstored]
          rw [hstep]
          exact ih (Prod.ext rfl hr)

/-- For an ancestor-closed store and a chain that does not change, the search ends without an
error, with the highest stored block of the chain if there is one, and no height that it asks
for is above the tip. A sync of the headers that gets these answers goes through the same search. -/
theorem fetchBestAncestor_highest {tip : Header} (hclosed : dbs.AncestorClosed)
    (hlinks : (chain++[tip]).IsChain Header.OnTop) (hno : HeadersMatch dbs (chain++[tip])) :
    ∃ asked r, fetchBestAncestor (fun n => (chain++[tip])[n]?.map Header.blockHash) dbs tip.blockHash
        chain.length = (asked,some (.ok r)) ∧
      (r = none ↔ ∀ n, ¬ StoredAt dbs (chain++[tip]) n) ∧
      (∀ k n, r = some (k,n) → (∃ hd, (chain++[tip])[n]? = some hd ∧ hd.blockHash = k) ∧
        StoredAt dbs (chain++[tip]) n ∧ ∀ m, StoredAt dbs (chain++[tip]) m → m ≤ n) ∧
      (∀ n ∈ asked, n ≤ chain.length) ∧
      ∀ answers : NodeAnswers,
        answers.getblockhash 0 = (fun n => (chain++[tip])[n]?.map Header.blockHash) →
        dbs.header.contains tip.blockHash = false →
        (fun s => (HeaderSync.step answers false false true dbs s).1)^[asked.length+1]
            (.search tip.blockHash chain.length none chain.length) =
          HeaderSync.fromAncestor tip.blockHash chain.length r := by
  have hfound : ∃ asked r, fetchBestAncestor (fun n => (chain++[tip])[n]?.map Header.blockHash) dbs
      tip.blockHash chain.length = (asked,some (.ok r)) ∧ IsBest dbs (chain++[tip]) r ∧
      ∀ n ∈ asked, n < (chain++[tip]).length := by
    have hlast : (chain++[tip])[chain.length]? = some tip := by simp
    unfold fetchBestAncestor
    rw [if_neg tip.blockHash_ne]
    split
    · rename_i hstored
      refine ⟨[],_,rfl,⟨⟨tip,hlast,rfl⟩,⟨tip,hlast,hstored⟩,?_⟩,by simp⟩
      rintro m ⟨hd,hget,-⟩
      have hlt := (List.getElem?_eq_some_iff.mp hget).1
      simp only [List.length_append,List.length_singleton] at hlt
      omega
    · rename_i hstored
      refine fetchBestAncestorLoop_ok hclosed hlinks hno ⟨by simp,by simp,?_⟩ (by simp [searchWidth])
      rintro ⟨hd,hget,hhd⟩
      obtain rfl := Option.some.inj (hlast.symm.trans hget)
      exact hstored hhd
  obtain ⟨asked,r,hr,hbest,hasked⟩ := hfound
  refine ⟨asked,r,hr,⟨?_,?_⟩,?_,?_,?_⟩
  · rintro rfl
    exact hbest
  · intro hall
    cases r with
    | none => rfl
    | some e => exact absurd hbest.2.1 (hall e.2)
  · rintro k n rfl
    exact hbest
  · intro n hn
    have := hasked n hn
    simp only [List.length_append,List.length_singleton] at this
    omega
  · intro answers hanswers hmissing
    rw [fetchBestAncestor,if_neg tip.blockHash_ne,hmissing,if_neg Bool.false_ne_true,← hanswers] at hr
    exact search_fetchBestAncestorLoop hr

end BestAncestor

section Sample

open Sample HeaderSample RollbackSample

namespace SearchSample

def store : BlockHashDbs := BlockHashDbs.empty.putHeaders ((chain.take 2).zipIdx 0)

def below : List Header := chain.take 2

def tip : Header := chain.getLast chain_ne_nil

theorem headersMatch : HeadersMatch store (below++[tip]) := by
  intro hd hm hd' hk
  have hall : ∀ hd ∈ below++[tip], store.header.get? hd.blockHash ∈ [none,some hd] := by
    decide +kernel
  have hmem := hall hd hm
  rw [hk] at hmem
  simpa using hmem

end SearchSample

open SearchSample

theorem fetchBestAncestor_highest_sample :
    ∃ r, fetchBestAncestor (fun n => (below++[tip])[n]?.map Header.blockHash) store tip.blockHash 2 =
        ([1],some (.ok r)) ∧ r = (below[1]?.map (fun hd => (hd.blockHash,1))) ∧
      ∀ k n, r = some (k,n) → ∀ m, StoredAt store (below++[tip]) m → m ≤ n := by
  have hclosed : store.AncestorClosed := by decide +kernel
  have hlinks : (below++[tip]).IsChain Header.OnTop := by decide +kernel
  obtain ⟨asked,r,hr,-,hbest,-⟩ := fetchBestAncestor_highest hclosed hlinks headersMatch
  have hrun : (fetchBestAncestor (fun n => (below++[tip])[n]?.map Header.blockHash) store
      tip.blockHash below.length).1 = [1] ∧
      ((fetchBestAncestor (fun n => (below++[tip])[n]?.map Header.blockHash) store
        tip.blockHash below.length).2.bind Except.toOption) =
        some (below[1]?.map (fun hd => (hd.blockHash,1))) := by decide +kernel
  rw [hr] at hrun
  obtain ⟨rfl,hval⟩ := hrun
  exact ⟨r,hr,Option.some.inj hval,fun k n hkn => (hbest k n hkn).2.2⟩

end Sample

end Bip300301Enforcer
