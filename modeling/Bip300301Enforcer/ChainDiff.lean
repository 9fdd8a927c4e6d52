import Bip300301Enforcer.PolicyMarks
import Bip300301Enforcer.TwoWayPeg

/-! The way from a block to the tip of the active chain, over the last block that they have
in common. -/
namespace Bip300301Enforcer
open Lib Chain BlockHandler Walk

section ChainDiff

variable [Bitcoin] {h : BlockHandler} {dbs : Dbs} {c : Chain} {k tip : BlockHash}

theorem Grown.diff_some {V : Chain → Block → Prop} {D : BlockHash → Option Diff.Block}
    {t : ConsensusDbs} (hg : Grown h V False D c t) : ∀ b ∈ c, ∃ d, D b.blockHash = some d := by
  induction c generalizing t with
  | nil => simp
  | cons b c ih =>
    cases hg with
    | base hb => cases (hb.empty id).1
    | connect hg hv ha hs hl =>
      intro b' hb'
      rcases List.mem_cons.mp hb' with rfl | hb'
      · exact ⟨_,hs⟩
      · exact ih hg b' hb'

omit [Bitcoin] in
theorem connectedInfo_eq {info : BlockInfo} (hi : dbs.blockHashes.Has k info) :
    dbs.connectedInfo k = .ok (k,info) := by
  obtain ⟨h₁,h₂,h₃⟩ := hi
  simp [Dbs.connectedInfo,BlockHashDbs.tryGetBlockInfo,h₁,h₂,h₃]

omit [Bitcoin] in
theorem mapM_connectedInfo (dbs : Dbs) (l : List BlockHash)
    (hl : ∀ k ∈ l, ∃ info, dbs.blockHashes.Has k info) :
    ∃ es, l.mapM dbs.connectedInfo = .ok es ∧ es.map Prod.fst = l ∧
      ∀ e ∈ es, dbs.blockHashes.Has e.1 e.2 := by
  induction l with
  | nil => exact ⟨[],rfl,rfl,by simp⟩
  | cons k l ih =>
    obtain ⟨info,hi⟩ := hl k List.mem_cons_self
    obtain ⟨es,hes,hmap,hev⟩ := ih (fun k' hk' => hl k' (List.mem_cons_of_mem _ hk'))
    refine ⟨(k,info)::es,?_,by rw [List.map_cons,hmap],List.forall_mem_cons.mpr ⟨hi,hev⟩⟩
    rw [List.mapM_cons,connectedInfo_eq hi,Fallible.ok_bind,hes]
    rfl

/-- The part of an ancestry above a common part. -/
theorem branch_eq {a : BlockHash} {p t : List BlockHash} (hh : dbs.blockHashes.Headers)
    (hp : Path dbs.blockHashes.parent? a (p++t) allZeros) :
    dbs.branch (t.head?.getD allZeros) a = p := by
  have hnodup := nodup_of_ranked hh.ranked hh.parent?_zeros hp
  have hne : ∀ x ∈ p, x ≠ t.head?.getD allZeros := by
    intro x hx hxt
    cases t with
    | nil =>
      obtain ⟨l₁,l₂,rfl⟩ := List.append_of_mem hx
      rw [List.append_nil] at hp
      obtain ⟨y,-,hy⟩ := path_append.mp hp
      obtain ⟨rfl,z,hz,-⟩ := hy
      rw [hxt] at hz
      exact Option.some_ne_none z (hz.symm.trans hh.parent?_zeros)
    | cons y t =>
      obtain rfl : x = y := hxt
      exact (List.nodup_append.mp hnodup).2.2 x hx x List.mem_cons_self rfl
  unfold Dbs.branch
  rw [hh.ancestorHeaders_eq hp]
  have htake : (p++t).takeWhile (fun k => k ≠ t.head?.getD allZeros) = p := by
    rw [List.takeWhile_append_of_pos (by simpa using hne)]
    cases t with
    | nil => simp
    | cons y t => simp
  exact htake

def Dbs.activeChain (dbs : Dbs) : List BlockHash :=
  match dbs.currentChainTip with
  | none => []
  | some k => dbs.blockHashes.ancestorHeaders k

variable {p q t l : List BlockHash} {params : NetworkParams}

theorem height_of_path {bh : BlockHashDbs} (hh : bh.Headers) (hl : Path bh.parent? k l allZeros)
    (hne : l ≠ []) : bh.height.get? k = some (l.length-1) := by
  obtain ⟨x,l,rfl⟩ := List.exists_cons_of_ne_nil hne
  exact rank_start hh.ranked hh.parent?_zeros hl

theorem chainDiff_known (params : NetworkParams) (hh : dbs.blockHashes.Headers)
    (htip : dbs.currentChainTip = some tip) (hk : dbs.blockHashes.header.contains k = true)
    (hp : Path dbs.blockHashes.parent? k (p++t) allZeros)
    (hq : Path dbs.blockHashes.parent? tip (q++t) allZeros) (hne : q++t ≠ [])
    (hdisj : ∀ x ∈ p, x ∉ q++t) (hinfo : ∀ x ∈ q, ∃ info, dbs.blockHashes.Has x info) :
    ∃ es, dbs.chainDiff params (some k) = .ok (some ⟨tip,(q++t).length-1,false,p,es⟩) ∧
      es.map Prod.fst = q.reverse ∧ ∀ e ∈ es, dbs.blockHashes.Has e.1 e.2 := by
  have hfork := hh.lastCommonAncestor_eq hp hq rfl rfl hdisj
  obtain ⟨es,hes,hfst,hhas⟩ := mapM_connectedInfo dbs q.reverse
    (fun x hx => hinfo x (List.mem_reverse.mp hx))
  refine ⟨es,?_,hfst,hhas⟩
  unfold Dbs.chainDiff
  rw [htip]
  simp only [Database.get,height_of_path hh hq hne,Fallible.require_some,Except.mapError,
    Fallible.ok_bind,Option.filter_some,hk,if_true,hfork,branch_eq hh hp,branch_eq hh hq]
  exact Fallible.bind_ok.mpr ⟨(p,q),rfl,Fallible.bind_ok.mpr ⟨es,hes,rfl⟩⟩

theorem chainDiff_unknown (params : NetworkParams) (hh : dbs.blockHashes.Headers)
    (htip : dbs.currentChainTip = some tip) {start : Option BlockHash}
    (hstart : start.filter dbs.blockHashes.header.contains = none)
    (hl : Path dbs.blockHashes.parent? tip l allZeros) (hne : l ≠ [])
    (hinfo : ∀ x ∈ l, ∃ info, dbs.blockHashes.Has x info) :
    ∃ es, dbs.chainDiff params start = .ok (some ⟨tip,l.length-1,true,[],es⟩) ∧
      es.map Prod.fst = (l.take (l.length-params.bip300ActivationHeight)).reverse ∧
      ∀ e ∈ es, dbs.blockHashes.Has e.1 e.2 := by
  obtain ⟨es,hes,hfst,hhas⟩ := mapM_connectedInfo dbs
    (l.take (l.length-params.bip300ActivationHeight)).reverse
    (fun x hx => hinfo x (List.mem_of_mem_take (List.mem_reverse.mp hx)))
  refine ⟨es,?_,hfst,hhas⟩
  have hpos := List.length_pos_iff.mpr hne
  have hcount : l.length-1+1-params.bip300ActivationHeight =
      l.length-params.bip300ActivationHeight := by omega
  unfold Dbs.chainDiff
  rw [htip]
  simp only [Database.get,height_of_path hh hl hne,Fallible.require_some,Except.mapError,
    Fallible.ok_bind,hstart,hh.ancestorHeaders_eq hl,hcount]
  exact Fallible.bind_ok.mpr ⟨_,rfl,Fallible.bind_ok.mpr ⟨es,hes,rfl⟩⟩

/-- The active chain was reached by connecting blocks, and the headers are closed under
parents. -/
structure ConnectedTip (dbs : Dbs) (tip : BlockHash) : Prop where
  headers : dbs.blockHashes.Headers
  closed : dbs.blockHashes.AncestorClosed
  tipIs : dbs.currentChainTip = some tip
  stored : dbs.blockHashes.header.contains tip = true
  infos : ∀ k ∈ dbs.activeChain, ∃ info, dbs.blockHashes.Has k info

theorem Reach.connectedTip {V : Chain → Block → Prop} (hr : Reach h V False dbs c) (hc : c ≠ [])
    (hclosed : dbs.blockHashes.AncestorClosed) : ConnectedTip dbs c.parentHash := by
  have hs := hr.synced
  obtain ⟨b,c,rfl⟩ := List.exists_cons_of_ne_nil hc
  refine ⟨hs.headers,hclosed,hs.tip,(FinMap.contains_iff _ _).mpr ⟨_,hs.linked.1⟩,?_⟩
  intro k hk
  rw [Dbs.activeChain,hs.tip] at hk
  rw [show (tipHash (b::c)) = some b.blockHash from rfl] at hk
  simp only [hs.headers.ancestorHeaders_eq (BlockHashDbs.linked_path hs.linked),
    ← parentHash_cons b c] at hk
  obtain ⟨b',hb',rfl⟩ := List.mem_map.mp hk
  obtain ⟨d,hd⟩ := hs.grown.diff_some b' hb'
  exact hr.has hd

/-- A chain after the disconnected blocks are taken off and the connected ones are put on,
the newest block first. -/
def ChainDiff.apply (d : ChainDiff) (chain : List BlockHash) : List BlockHash :=
  (d.connected.map Prod.fst).reverse++chain.drop d.disconnected.length

structure ChainDiff.Describes (d : ChainDiff) (dbs : Dbs) (start : BlockHash)
    (shared : List BlockHash) : Prop where
  tip : dbs.currentChainTip = some d.tip
  tipHeight : dbs.blockHashes.height.get? d.tip = some d.tipHeight
  rebuilt : d.rebuilt = false
  disconnected : dbs.blockHashes.ancestorHeaders start = d.disconnected++shared
  connected : dbs.activeChain = (d.connected.map Prod.fst).reverse++shared
  infos : ∀ e ∈ d.connected, dbs.blockHashes.Has e.1 e.2
  common : ∀ k, k ∈ shared ↔ k ∈ dbs.blockHashes.ancestorHeaders start ∧ k ∈ dbs.activeChain
  highest : ∀ k ∈ shared, ∀ f ∈ shared.head?,
    dbs.blockHashes.heightAt k ≤ dbs.blockHashes.heightAt f
  disjoint : List.Disjoint d.disconnected (d.connected.map Prod.fst)

omit [Bitcoin] in
theorem ChainDiff.Describes.apply {d : ChainDiff} {shared : List BlockHash}
    (hd : d.Describes dbs k shared) :
    d.apply (dbs.blockHashes.ancestorHeaders k) = dbs.activeChain := by
  rw [ChainDiff.apply,hd.disconnected,hd.connected,List.drop_left]

theorem ConnectedTip.path (hc : ConnectedTip dbs tip) :
    Path dbs.blockHashes.parent? tip dbs.activeChain allZeros ∧ dbs.activeChain ≠ [] := by
  obtain ⟨hd,hhd⟩ := (FinMap.contains_iff _ _).mp hc.stored
  obtain ⟨l,hl⟩ := hc.headers.exists_path hc.closed hhd
  have hactive : dbs.activeChain = l := by
    rw [Dbs.activeChain,hc.tipIs]
    exact hc.headers.ancestorHeaders_eq hl
  rw [hactive]
  refine ⟨hl,?_⟩
  rintro rfl
  obtain rfl : tip = allZeros := hl
  exact absurd (hc.headers.hash _ _ hhd) hd.blockHash_ne

theorem ConnectedTip.describes (params : NetworkParams) (hc : ConnectedTip dbs tip)
    (hk : dbs.blockHashes.header.contains k = true) :
    ∃ d shared, dbs.chainDiff params (some k) = .ok (some d) ∧ d.Describes dbs k shared := by
  have hh := hc.headers
  obtain ⟨hq,hne⟩ := hc.path
  obtain ⟨hd,hhd⟩ := (FinMap.contains_iff _ _).mp hk
  obtain ⟨l,hl⟩ := hh.exists_path hc.closed hhd
  have hanc := hh.ancestorHeaders_eq hl
  obtain ⟨p,q,t,rfl,hactive,hpq,hqp⟩ := exists_meet hh.ranked hh.parent?_zeros hl hq
  have hheight := height_of_path hh hq hne
  rw [hactive] at hq hne hpq hheight
  obtain ⟨es,hdiff,hfst,hhas⟩ := chainDiff_known params hh hc.tipIs hk hl hq hne hpq
    (fun x hx => hc.infos x (by rw [hactive]; exact List.mem_append_left _ hx))
  refine ⟨_,t,hdiff,hc.tipIs,hheight,rfl,hanc,?_,hhas,?_,?_,?_⟩
  · rw [hactive,hfst,List.reverse_reverse]
  · intro x
    rw [hanc,hactive]
    constructor
    · intro hx
      exact ⟨List.mem_append_right _ hx,List.mem_append_right _ hx⟩
    · rintro ⟨hx,hx'⟩
      rcases List.mem_append.mp hx with hxp | hxt
      · exact absurd hx' (hpq x hxp)
      · exact hxt
  · intro x hx f hf
    obtain ⟨y,-,hy⟩ := path_append.mp hl
    cases t with
    | nil => cases hx
    | cons z t =>
      obtain rfl : z = f := Option.some.inj hf
      rcases List.mem_cons.mp hx with rfl | hx
      · exact le_rfl
      · obtain ⟨m,n,hm,hn,hlt⟩ := rank_lt_of_mem hh.ranked hh.parent?_zeros hy hx
        simp only [BlockHashDbs.heightAt,hm,hn,Option.getD_some]
        omega
  · intro x hx hx'
    rw [hfst] at hx'
    exact hpq x hx (List.mem_append_left _ (List.mem_reverse.mp hx'))

/-- The blocks from some height on are the first ones of the list. -/
theorem filter_heights {bh : BlockHashDbs} (hh : bh.Headers) (hl : Path bh.parent? k l allZeros)
    (n : ℕ) : l.filter (fun x => n ≤ bh.heightAt x) = l.take (l.length-n) := by
  have hheight : ∀ i x, l[i]? = some x → bh.heightAt x = l.length-1-i := by
    intro i x hx
    rw [BlockHashDbs.heightAt,rank_get hh.ranked hh.parent?_zeros hl hx]
    rfl
  have htake : (l.take (l.length-n)).filter (fun x => n ≤ bh.heightAt x) = l.take (l.length-n) := by
    rw [List.filter_eq_self]
    intro x hx
    obtain ⟨i,hi⟩ := List.mem_iff_getElem?.mp hx
    rw [List.getElem?_take] at hi
    split at hi
    · rename_i hlt
      have := hheight i x hi
      exact decide_eq_true (by omega)
    · cases hi
  have hdrop : (l.drop (l.length-n)).filter (fun x => n ≤ bh.heightAt x) = [] := by
    rw [List.filter_eq_nil_iff]
    intro x hx
    obtain ⟨i,hi⟩ := List.mem_iff_getElem?.mp hx
    rw [List.getElem?_drop] at hi
    obtain ⟨hlt,-⟩ := List.getElem?_eq_some_iff.mp hi
    have := hheight _ x hi
    simp only [decide_eq_true_eq]
    omega
  calc l.filter (fun x => n ≤ bh.heightAt x)
      = (l.take (l.length-n)++l.drop (l.length-n)).filter (fun x => n ≤ bh.heightAt x) := by
        rw [List.take_append_drop]
    _ = l.take (l.length-n) := by rw [List.filter_append,htake,hdrop,List.append_nil]

/-- Headers are not forgotten from one state to the next. -/
def KeepsHeaders (dbs dbs' : Dbs) : Prop :=
  ∀ k hd, dbs.blockHashes.header.get? k = some hd → dbs'.blockHashes.header.get? k = some hd

/-- Apply the diffs of one state after the other, each from the tip of the last one. -/
def followDiffs (params : NetworkParams) : List Dbs → BlockHash → List BlockHash →
    Except ReconcileError (List BlockHash)
  | [], _, chain => .ok chain
  | dbs::states, start, chain => do
    match ← dbs.chainDiff params (some start) with
    | none => followDiffs params states start chain
    | some d => followDiffs params states d.tip (d.apply chain)

theorem ConnectedTip.ancestorHeaders_mono {dbs' : Dbs} {tip' : BlockHash}
    (hc : ConnectedTip dbs tip) (hc' : ConnectedTip dbs' tip') (hkeep : KeepsHeaders dbs dbs')
    (hk : dbs.blockHashes.header.contains k = true) :
    dbs'.blockHashes.header.contains k = true ∧
      dbs'.blockHashes.ancestorHeaders k = dbs.blockHashes.ancestorHeaders k := by
  obtain ⟨hd,hhd⟩ := (FinMap.contains_iff _ _).mp hk
  obtain ⟨l,hl⟩ := hc.headers.exists_path hc.closed hhd
  have hparent : ∀ a b, dbs.blockHashes.parent? a = some b → dbs'.blockHashes.parent? a = some b := by
    intro a b hab
    obtain ⟨hd,hhd,rfl⟩ := Option.map_eq_some_iff.mp hab
    simp [BlockHashDbs.parent?,hkeep a hd hhd]
  refine ⟨(FinMap.contains_iff _ _).mpr ⟨hd,hkeep k hd hhd⟩,?_⟩
  rw [hc.headers.ancestorHeaders_eq hl,hc'.headers.ancestorHeaders_eq (path_mono hparent hl)]

/-- Following the diffs leads to the active chain of the last state, where the header of
the block that the way started from is still stored. -/
theorem followDiffs_eq (params : NetworkParams) {first : Dbs} {later : List Dbs}
    (hc : ∀ s ∈ first::later, ∃ tip, ConnectedTip s tip) (hkeep : (first::later).IsChain KeepsHeaders)
    (hk : first.blockHashes.header.contains k = true) :
    followDiffs params (first::later) k (first.blockHashes.ancestorHeaders k) =
        .ok (later.getLastD first).activeChain ∧
      (later.getLastD first).blockHashes.header.contains k = true ∧
      (later.getLastD first).blockHashes.ancestorHeaders k = first.blockHashes.ancestorHeaders k := by
  induction later generalizing first k with
  | nil =>
    obtain ⟨tip,hfirst⟩ := hc first List.mem_cons_self
    obtain ⟨d,shared,hdiff,hdesc⟩ := hfirst.describes params hk
    refine ⟨?_,hk,rfl⟩
    rw [followDiffs,hdiff,Fallible.ok_bind]
    exact congrArg Except.ok hdesc.apply
  | cons next later ih =>
    obtain ⟨tip,hfirst⟩ := hc first List.mem_cons_self
    obtain ⟨tip',hnext⟩ := hc next (by simp)
    obtain ⟨hkeep₁,hkeep⟩ := List.isChain_cons_cons.mp hkeep
    obtain ⟨d,shared,hdiff,hdesc⟩ := hfirst.describes params hk
    have hc' : ∀ s ∈ next::later, ∃ tip, ConnectedTip s tip :=
      fun s hs => hc s (List.mem_cons_of_mem _ hs)
    obtain ⟨hk',hanc⟩ := hfirst.ancestorHeaders_mono hnext hkeep₁ hk
    obtain rfl : tip = d.tip := Option.some.inj (hfirst.tipIs.symm.trans hdesc.tip)
    obtain ⟨htip',hanctip⟩ := hfirst.ancestorHeaders_mono hnext hkeep₁ hfirst.stored
    have hactive : first.activeChain = next.blockHashes.ancestorHeaders d.tip := by
      rw [hanctip,Dbs.activeChain,hfirst.tipIs]
    obtain ⟨hfollow,-,-⟩ := ih hc' hkeep htip'
    obtain ⟨-,hk'',hanc''⟩ := ih hc' hkeep hk'
    rw [List.getLastD_cons]
    refine ⟨?_,hk'',hanc''.trans hanc⟩
    rw [followDiffs,hdiff,Fallible.ok_bind]
    simp only [hdesc.apply,hactive]
    exact hfollow

/-- The diff from a block describes the reorg to the tip, over the highest common ancestor.
Without a known block it lists the active chain from the activation height on, and the
diffs of successive tips compose. -/
theorem chainDiff_exact (params : NetworkParams) (hc : ConnectedTip dbs tip) :
    (∀ start, dbs.blockHashes.header.contains start = true →
      ∃ d shared, dbs.chainDiff params (some start) = .ok (some d) ∧ d.Describes dbs start shared ∧
        d.apply (dbs.blockHashes.ancestorHeaders start) = dbs.activeChain) ∧
    (∀ start : Option BlockHash, (∀ k ∈ start, dbs.blockHashes.header.contains k = false) →
      ∃ d, dbs.chainDiff params start = .ok (some d) ∧ d.tip = tip ∧ d.rebuilt = true ∧
        d.disconnected = [] ∧ d.connected.map Prod.fst = dbs.activeChain.reverse.filter
          (fun k => params.bip300ActivationHeight ≤ dbs.blockHashes.heightAt k) ∧
        ∀ e ∈ d.connected, dbs.blockHashes.Has e.1 e.2) ∧
    ∀ earlier : List Dbs, (∀ s ∈ earlier, ∃ tip, ConnectedTip s tip) →
      (earlier++[dbs]).IsChain KeepsHeaders →
      ∀ start, (earlier.headD dbs).blockHashes.header.contains start = true →
        ∃ d, dbs.chainDiff params (some start) = .ok (some d) ∧
          followDiffs params (earlier++[dbs]) start
              ((earlier.headD dbs).blockHashes.ancestorHeaders start) =
            .ok (d.apply ((earlier.headD dbs).blockHashes.ancestorHeaders start)) := by
  refine ⟨?_,?_,?_⟩
  · intro start hk
    obtain ⟨d,shared,hdiff,hdesc⟩ := hc.describes params hk
    exact ⟨d,shared,hdiff,hdesc,hdesc.apply⟩
  · intro start hstart
    obtain ⟨hl,hne⟩ := hc.path
    have hnone : start.filter dbs.blockHashes.header.contains = none := by
      cases start with
      | none => rfl
      | some k => simp [hstart k rfl]
    obtain ⟨es,hdiff,hfst,hhas⟩ := chainDiff_unknown params hc.headers hc.tipIs hnone hl hne hc.infos
    refine ⟨_,hdiff,rfl,rfl,rfl,?_,hhas⟩
    rw [hfst,← filter_heights hc.headers hl,List.filter_reverse]
  · intro earlier hearlier hkeep start hk
    obtain ⟨first,later,hsplit,hhead,hlast⟩ : ∃ first later, earlier++[dbs] = first::later ∧
        earlier.headD dbs = first ∧ later.getLastD first = dbs := by
      cases earlier with
      | nil => exact ⟨dbs,[],rfl,rfl,rfl⟩
      | cons s earlier => exact ⟨s,earlier++[dbs],rfl,rfl,by simp⟩
    rw [hhead] at hk ⊢
    rw [hsplit] at hkeep ⊢
    have hall : ∀ s ∈ first::later, ∃ tip, ConnectedTip s tip := by
      intro s hs
      rw [← hsplit] at hs
      rcases List.mem_append.mp hs with hs | hs
      · exact hearlier s hs
      · exact ⟨tip,List.mem_singleton.mp hs ▸ hc⟩
    obtain ⟨hfollow,hk',hanc⟩ := followDiffs_eq params hall hkeep hk
    rw [hlast] at hfollow hk' hanc
    obtain ⟨d,shared,hdiff,hdesc⟩ := hc.describes params hk'
    exact ⟨d,hdiff,by rw [hfollow,← hanc,hdesc.apply]⟩

end ChainDiff

section Sample

open Sample ForkSample

theorem connectedTip_run : ConnectedTip run.1 run.2.parentHash :=
  reach_run.connectedTip (by decide +kernel) ancestorClosed_run

theorem chainDiff_exact_sample :
    ∃ d shared, run.1.chainDiff handler.params (some target) = .ok (some d) ∧
      d.Describes run.1 target shared ∧
      d.apply (run.1.blockHashes.ancestorHeaders target) = run.1.activeChain ∧
      d.disconnected = newBranch.reverse.map Block.blockHash ∧
      d.connected.map Prod.fst = oldBranch.map Block.blockHash := by
  obtain ⟨d,shared,hdiff,hdesc,happly⟩ :=
    (chainDiff_exact handler.params connectedTip_run).1 target (by decide +kernel)
  have hlists : (run.1.chainDiff handler.params (some target)).toOption.map (fun o => o.map
      (fun d => (d.disconnected,d.connected.map Prod.fst))) =
      some (some (newBranch.reverse.map Block.blockHash,oldBranch.map Block.blockHash)) := by
    decide +kernel
  rw [hdiff] at hlists
  obtain ⟨h₁,h₂⟩ := Prod.mk.inj (Option.some.inj (Option.some.inj hlists))
  exact ⟨d,shared,hdiff,hdesc,happly,h₁,h₂⟩

end Sample

end Bip300301Enforcer
