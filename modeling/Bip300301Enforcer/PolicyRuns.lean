import Bip300301Enforcer.BlockInfos
import Bip300301Enforcer.ChainDiff

/-! Runs in which the chain changes and the marks of the block producer are reconciled
with it. -/
namespace Bip300301Enforcer
open Lib Chain BlockHandler Marks Walk

section Diffs

variable [Bitcoin] {node : BlockHash → Block} {h : BlockHandler} {dbs : Dbs} {c c₀ : Chain}
  {k : BlockHash} {l : List BlockHash}

/-- The blocks of a chain are stored under these headers, with their infos. -/
structure Recorded (h : BlockHandler) (node : BlockHash → Block) (dbs : BlockHashDbs) (c : Chain) :
    Prop where
  linked : dbs.Linked c
  valid : c.Valid (NodeValid node)
  infos : ∀ b ∈ c, ∃ info, InfoOf h node b.blockHash info ∧ dbs.Has b.blockHash info

theorem Reach.recorded (hr : Reach h (NodeValid node) False dbs c) :
    Recorded h node dbs.blockHashes c := by
  refine ⟨hr.synced.linked,hr.synced.valid,fun b hb => ?_⟩
  obtain ⟨d,hd⟩ := hr.synced.grown.diff_some b hb
  exact (hr.infosStored rfl id).has _ d hd

theorem Recorded.tail {bh : BlockHashDbs} {b : Block} (hr : Recorded h node bh (b::c)) :
    Recorded h node bh c :=
  ⟨hr.linked.2.2,hr.valid.2,fun b' hb' => hr.infos b' (List.mem_cons_of_mem _ hb')⟩

theorem Recorded.suffix {bh : BlockHashDbs} {c' : Chain} (hr : Recorded h node bh (c'++c)) :
    Recorded h node bh c := by
  induction c' with
  | nil => exact hr
  | cons b c' ih => exact ih hr.tail

theorem Recorded.events_below {bh : BlockHashDbs} {b : Block} (hr : Recorded h node bh (b::c))
    (hlt : c.length < h.params.bip300ActivationHeight) : bh.eventsAt b.blockHash = [] := by
  obtain ⟨info,⟨d,c',b',coinbase,txs,res,hs,hv,hk,ha,rfl⟩,hhas⟩ := hr.infos b List.mem_cons_self
  have hb : b' = b := by rw [← hv.2,← hr.valid.1.2,hk]
  subst hb
  have hc : c' = c := chain_unique hs.valid hr.valid.2 hs.linked hr.linked.2.2
    (ha.parent.symm.trans hr.linked.2.1)
  subst hc
  have hp := ha.processed
  unfold processBlock at hp
  rw [if_pos hlt] at hp
  obtain rfl := Except.ok.inj hp
  rw [BlockHashDbs.eventsAt,hhas.2.2]
  rfl

omit [Bitcoin] in
theorem BlockHashDbs.Has.eventsAt {bh : BlockHashDbs} {info : BlockInfo} (hi : bh.Has k info) :
    bh.eventsAt k = info.events := by
  simp [BlockHashDbs.eventsAt,hi.2.2]

theorem zipIdx_heights {bh : BlockHashDbs} {a : BlockHash} {q t : List BlockHash}
    {es : List (BlockHash × BlockInfo)} (hh : bh.Headers) (hp : Path bh.parent? a (q++t) allZeros)
    (hes : es.map Prod.fst = q.reverse) :
    ∀ e ∈ es.zipIdx t.length, e.2 = bh.heightAt e.1.1 := by
  rintro ⟨x,i⟩ hmem
  obtain ⟨hle,hget⟩ := List.mk_mem_zipIdx_iff_le_and_getElem?_sub.mp hmem
  have hq : q.reverse[i-t.length]? = some x.1 := by
    rw [← hes,List.getElem?_map,hget]
    rfl
  have hlt : i-t.length < q.length := by
    obtain ⟨hlt,-⟩ := List.getElem?_eq_some_iff.mp hq
    simpa using hlt
  rw [List.getElem?_reverse hlt] at hq
  have hall : (q++t)[q.length-1-(i-t.length)]? = some x.1 := by
    rw [List.getElem?_append_left (by omega)]
    exact hq
  have hrank := rank_get hh.ranked hh.parent?_zeros hp hall
  simp only [BlockHashDbs.heightAt,hrank,Option.getD_some,List.length_append]
  omega

/-- The chain that a database is in line with. -/
def PolicyDb.cursorChain (db : PolicyDb) (dbs : Dbs) : List BlockHash :=
  match db.policyTip with
  | none => []
  | some k => dbs.blockHashes.ancestorHeaders k

theorem ancestorHeaders_tip {bh : BlockHashDbs} (hh : bh.Headers) (hl : bh.Linked c) :
    (match c.tipHash with
      | none => []
      | some k => bh.ancestorHeaders k) = c.map Block.blockHash := by
  cases c with
  | nil => rfl
  | cons b c => exact hh.ancestorHeaders_eq (BlockHashDbs.linked_path hl)

/-- The way from the tip of a recorded chain to that of the active one. -/
theorem chainDiff_cursor (params : NetworkParams) (hh : dbs.blockHashes.Headers)
    (hr : Recorded h node dbs.blockHashes c) (htip : dbs.currentChainTip = c.tipHash) (hc : c ≠ [])
    (hr₀ : Recorded h node dbs.blockHashes c₀) (hc₀ : c₀ ≠ []) :
    ∃ p p' t es, c₀.map Block.blockHash = p++t ∧ c.map Block.blockHash = p'++t ∧
      (∀ k ∈ p, k ∉ p'++t) ∧ (∀ k ∈ p', k ∉ p++t) ∧
      dbs.chainDiff params c₀.tipHash = .ok (some ⟨c.parentHash,c.length-1,false,p,es⟩) ∧
      es.map Prod.fst = p'.reverse ∧
      ∀ e ∈ es.zipIdx t.length, e.1.2.events = dbs.blockHashes.eventsAt e.1.1 ∧
        e.2 = dbs.blockHashes.heightAt e.1.1 := by
  have hpath := BlockHashDbs.linked_path hr.linked
  have hpath₀ := BlockHashDbs.linked_path hr₀.linked
  obtain ⟨p,p',t,hl₀,hl,hne,hne'⟩ := exists_meet hh.ranked hh.parent?_zeros hpath₀ hpath
  have hinfo : ∀ k ∈ p', ∃ info, dbs.blockHashes.Has k info := by
    intro k hk
    have hmem : k ∈ c.map Block.blockHash := by
      rw [hl]
      exact List.mem_append_left _ hk
    obtain ⟨b,hb,rfl⟩ := List.mem_map.mp hmem
    obtain ⟨info,-,hi⟩ := hr.infos b hb
    exact ⟨info,hi⟩
  have hlen : (p'++t).length = c.length := by rw [← hl,List.length_map]
  have hnil : p'++t ≠ [] := by rw [← hl]; simpa using hc
  rw [hl₀] at hpath₀ hne'
  rw [hl] at hpath hne
  obtain ⟨b,c',rfl⟩ := List.exists_cons_of_ne_nil hc
  obtain ⟨b₀,c₀',rfl⟩ := List.exists_cons_of_ne_nil hc₀
  obtain ⟨es,hdiff,hfst,hhas⟩ := chainDiff_known params hh htip
    ((FinMap.contains_iff _ _).mpr ⟨_,hr₀.linked.1⟩) hpath₀ hpath hnil hne hinfo
  refine ⟨p,p',t,es,hl₀,hl,hne,hne',hlen ▸ hdiff,hfst,?_⟩
  rintro ⟨e,i⟩ he
  obtain ⟨-,hget⟩ := List.mk_mem_zipIdx_iff_le_and_getElem?_sub.mp he
  exact ⟨(hhas e (List.mem_of_getElem? hget)).eventsAt.symm,zipIdx_heights hh hpath hfst _ he⟩

/-- Rebuilding the marks lists the active chain from the activation height on. Below it
there are no events. -/
theorem chainDiff_rebuild (hh : dbs.blockHashes.Headers) (hr : Recorded h node dbs.blockHashes c)
    (htip : dbs.currentChainTip = c.tipHash) (hc : c ≠ []) :
    ∃ q t es, c.map Block.blockHash = q++t ∧ (∀ k ∈ t, dbs.blockHashes.eventsAt k = []) ∧
      dbs.chainDiff h.params none = .ok (some ⟨c.parentHash,c.length-1,true,[],es⟩) ∧
      es.map Prod.fst = q.reverse ∧
      ∀ e ∈ es.zipIdx t.length, e.1.2.events = dbs.blockHashes.eventsAt e.1.1 ∧
        e.2 = dbs.blockHashes.heightAt e.1.1 := by
  have hpath := BlockHashDbs.linked_path hr.linked
  let n := c.length-h.params.bip300ActivationHeight
  have hl : c.map Block.blockHash =
      (c.map Block.blockHash).take n++(c.map Block.blockHash).drop n := (List.take_append_drop _ _).symm
  obtain ⟨b,c',rfl⟩ := List.exists_cons_of_ne_nil hc
  obtain ⟨es,hdiff,hfst,hhas⟩ := chainDiff_unknown h.params hh htip (Option.filter_none _) hpath
    (by simp) (by
      intro k hk
      obtain ⟨b,hb,rfl⟩ := List.mem_map.mp hk
      obtain ⟨info,-,hi⟩ := hr.infos b hb
      exact ⟨info,hi⟩)
  rw [List.length_map] at hdiff hfst
  refine ⟨_,_,es,hl,?_,hdiff,hfst,?_⟩
  · intro k hk
    rw [← List.map_drop] at hk
    obtain ⟨b',hb,rfl⟩ := List.mem_map.mp hk
    obtain ⟨l₁,l₂,hsplit⟩ := List.append_of_mem hb
    have hall : Recorded h node dbs.blockHashes (((b::c').take n++l₁)++b'::l₂) := by
      rw [List.append_assoc,← hsplit,List.take_append_drop]
      exact hr
    have hrest := hall.suffix
    refine hrest.events_below ?_
    have hlen := congrArg List.length hsplit
    simp only [List.length_drop,List.length_append,List.length_cons] at hlen
    have hn : n = (b::c').length-h.params.bip300ActivationHeight := rfl
    simp only [List.length_cons] at hn
    omega
  · rintro ⟨e,i⟩ he
    rw [hl] at hpath
    obtain ⟨-,hget⟩ := List.mk_mem_zipIdx_iff_le_and_getElem?_sub.mp he
    exact ⟨(hhas e (List.mem_of_getElem? hget)).eventsAt.symm,zipIdx_heights hh hpath hfst _ he⟩

end Diffs

section Reconcile

variable [Bitcoin] {node : BlockHash → Block} {h : BlockHandler} {dbs : Dbs} {c : Chain}
  {db : PolicyDb}

/-- A mark of the old chain that is not on the current one does not fall back to an older
mark. Without a tip there are no marks at all. -/
def KeepsMark {β : Type} (hit : BlockHash → Option β) (old cur : List BlockHash) : Prop :=
  if cur = [] then ∀ k ∈ old, hit k = none
  else (∃ k ∈ old, k ∉ cur ∧ hit k ≠ none) → (∃ k ∈ old, k ∈ cur ∧ hit k ≠ none) →
    ∃ k ∈ cur, k ∉ old ∧ hit k ≠ none

/-- No row has to fall back to an older mark when the database is reconciled. -/
def PolicyDb.KeepsMarks (db : PolicyDb) (dbs : Dbs) : Prop :=
  (∀ row ∈ db.sidechainProposals,
    KeepsMark (row.hit dbs.blockHashes) (db.cursorChain dbs) dbs.activeChain) ∧
  ∀ row ∈ db.bundleProposals,
    KeepsMark (row.hit dbs.blockHashes) (db.cursorChain dbs) dbs.activeChain

/-- The marks are those of the chain that the cursor stands for. -/
def AtCursor (h : BlockHandler) (node : BlockHash → Block) (dbs : BlockHashDbs) (db : PolicyDb) :
    Prop :=
  ∃ c, db.policyTip = c.tipHash ∧ Recorded h node dbs c ∧ db.InLine dbs (c.map Block.blockHash)

omit [Bitcoin] in
theorem keepsMark_iff {β : Type} {hit : BlockHash → Option β} {p p' t : List BlockHash}
    (hcur : p'++t ≠ []) (hne : ∀ k ∈ p, k ∉ p'++t) (hne' : ∀ k ∈ p', k ∉ p++t) :
    KeepsMark hit (p++t) (p'++t) ↔
      ((∃ k ∈ p, hit k ≠ none) → (∃ k ∈ t, hit k ≠ none) → ∃ k ∈ p', hit k ≠ none) := by
  have hgone : (∃ k ∈ p++t, k ∉ p'++t ∧ hit k ≠ none) ↔ ∃ k ∈ p, hit k ≠ none := by
    constructor
    · rintro ⟨k,hk,hn,hh⟩
      rcases List.mem_append.mp hk with hk | hk
      · exact ⟨k,hk,hh⟩
      · exact absurd (List.mem_append_right _ hk) hn
    · rintro ⟨k,hk,hh⟩
      exact ⟨k,List.mem_append_left _ hk,hne k hk,hh⟩
  have hshared : (∃ k ∈ p++t, k ∈ p'++t ∧ hit k ≠ none) ↔ ∃ k ∈ t, hit k ≠ none := by
    constructor
    · rintro ⟨k,hk,hn,hh⟩
      rcases List.mem_append.mp hk with hk | hk
      · exact absurd hn (hne k hk)
      · exact ⟨k,hk,hh⟩
    · rintro ⟨k,hk,hh⟩
      exact ⟨k,List.mem_append_right _ hk,List.mem_append_right _ hk,hh⟩
  have hnew : (∃ k ∈ p'++t, k ∉ p++t ∧ hit k ≠ none) ↔ ∃ k ∈ p', hit k ≠ none := by
    constructor
    · rintro ⟨k,hk,hn,hh⟩
      rcases List.mem_append.mp hk with hk | hk
      · exact ⟨k,hk,hh⟩
      · exact absurd (List.mem_append_right _ hk) hn
    · rintro ⟨k,hk,hh⟩
      exact ⟨k,List.mem_append_left _ hk,hne' k hk,hh⟩
  rw [KeepsMark,if_neg hcur,hgone,hshared,hnew]

omit [Bitcoin] in
theorem move_iff_keepsMark {β : Type} {hit : BlockHash → Option β} {p p' t : List BlockHash}
    (hcur : p'++t ≠ []) (hne : ∀ k ∈ p, k ∉ p'++t) (hne' : ∀ k ∈ p', k ∉ p++t) :
    p'.reverse.foldl (markOne hit) (p.foldl clearOne (newest hit (p++t))) = newest hit (p'++t) ↔
      KeepsMark hit (p++t) (p'++t) := by
  rw [keepsMark_iff hcur hne hne']
  exact move_iff (fun k hk hkt => hne k hk (List.mem_append_right _ hkt))

omit [Bitcoin] in
theorem keepsMark_self {β : Type} (hit : BlockHash → Option β) {l : List BlockHash} (hl : l ≠ []) :
    KeepsMark hit l l := by
  rw [KeepsMark,if_neg hl]
  rintro ⟨k,hk,hn,-⟩
  exact absurd hk hn

omit [Bitcoin] in
theorem keepsMark_nil {β : Type} (hit : BlockHash → Option β) (l : List BlockHash) :
    KeepsMark hit [] l := by
  unfold KeepsMark
  split
  · simp
  · rintro ⟨k,hk,-⟩
    cases hk

theorem AtCursor.chains (hr : Reach h (NodeValid node) False dbs c) {c₀ : Chain}
    (ht : db.policyTip = c₀.tipHash) (hr₀ : Recorded h node dbs.blockHashes c₀) :
    db.cursorChain dbs = c₀.map Block.blockHash ∧ dbs.activeChain = c.map Block.blockHash := by
  have hs := hr.synced
  refine ⟨?_,?_⟩
  · rw [PolicyDb.cursorChain,ht]
    exact ancestorHeaders_tip hs.headers hr₀.linked
  · rw [Dbs.activeChain,hs.tip]
    exact ancestorHeaders_tip hs.headers hs.linked

theorem reconcile_noTip {bh : BlockHashDbs} {l : List BlockHash} (hin : db.InLine bh l) :
    db.InLine bh [] ↔ (∀ row ∈ db.sidechainProposals, KeepsMark (row.hit bh) l []) ∧
      ∀ row ∈ db.bundleProposals, KeepsMark (row.hit bh) l [] := by
  unfold PolicyDb.InLine KeepsMark
  refine and_congr (forall₂_congr fun row hrow => ?_) (forall₂_congr fun row hrow => ?_)
  · rw [if_pos rfl,← newest_eq_none,hin.1 row hrow]
    exact Option.map_eq_none_iff
  · rw [if_pos rfl,← newest_eq_none,(hin.2 row hrow).1,(hin.2 row hrow).2]
    cases newest (row.hit bh) l <;> simp [newest]

omit [Bitcoin] in
theorem map_fst_zipIdx (es : List (BlockHash × BlockInfo)) (n : ℕ) :
    (es.zipIdx n).map (fun e => e.1.1) = es.map Prod.fst := by
  induction es generalizing n with
  | nil => rfl
  | cons e es ih => rw [List.zipIdx_cons,List.map_cons,ih,List.map_cons]

/-- Reconciling without a cursor. -/
theorem reconcile_rebuild (hr : Reach h (NodeValid node) False dbs c) (hc : c ≠ [])
    (ht : db.policyTip = none) :
    ∃ n db', db.reconcile h.params dbs = .ok (n,db') ∧ db'.policyTip = c.tipHash ∧
      db'.InLine dbs.blockHashes (c.map Block.blockHash) := by
  have hs := hr.synced
  obtain ⟨q,t,es,hl,hnone,hdiff,hfst,hes⟩ := chainDiff_rebuild hs.headers hr.recorded hs.tip hc
  have hlen : c.length-1+1-es.length = t.length := by
    have h₁ := congrArg List.length hl
    have h₂ := congrArg List.length hfst
    have h₃ : 0 < c.length := List.length_pos_iff.mpr hc
    simp only [List.length_map,List.length_append,List.length_reverse] at h₁ h₂
    omega
  have htip : some c.parentHash = c.tipHash := by
    obtain ⟨b,c',rfl⟩ := List.exists_cons_of_ne_nil hc
    rfl
  refine ⟨some (c.length-1),{ (es.zipIdx t.length).foldl PolicyDb.connect db.clear with
    policyTip := some c.parentHash },?_,htip,?_⟩
  · unfold PolicyDb.reconcile
    rw [ht,hdiff]
    simp only [Fallible.ok_bind,reduceCtorEq,if_false,if_true,List.foldl_nil,hlen]
    rfl
  · change PolicyDb.InLine ((es.zipIdx t.length).foldl PolicyDb.connect db.clear) dbs.blockHashes
      (c.map Block.blockHash)
    have hfst' := (map_fst_zipIdx es t.length).trans hfst
    rw [PolicyDb.marked_clear,PolicyDb.marked_foldl_connect hes,PolicyDb.inLine_marked,hfst',hl]
    refine ⟨fun row _ => ?_,fun row _ => ?_⟩
    · have hbelow : newest (row.hit dbs.blockHashes) t = none :=
        newest_eq_none.mpr (fun k hk => by simp [SidechainProposalRow.hit,hnone k hk])
      rw [foldl_markOne,newest_append,hbelow]
    · have hbelow : newest (row.hit dbs.blockHashes) t = none :=
        newest_eq_none.mpr (fun k hk => by simp [BundleProposalRow.hit,hnone k hk])
      rw [foldl_markOne,newest_append,hbelow]

/-- Reconciling from the cursor. -/
theorem reconcile_cursor {c₀ : Chain} (hr : Reach h (NodeValid node) False dbs c) (hc : c ≠ [])
    (hr₀ : Recorded h node dbs.blockHashes c₀) (hc₀ : c₀ ≠ []) (ht : db.policyTip = c₀.tipHash)
    (hin : db.InLine dbs.blockHashes (c₀.map Block.blockHash)) (hne : c₀.tipHash ≠ c.tipHash) :
    ∃ n db', db.reconcile h.params dbs = .ok (n,db') ∧ db'.policyTip = c.tipHash ∧
      (db'.InLine dbs.blockHashes (c.map Block.blockHash) ↔
        (∀ row ∈ db.sidechainProposals, KeepsMark (row.hit dbs.blockHashes)
          (c₀.map Block.blockHash) (c.map Block.blockHash)) ∧
        ∀ row ∈ db.bundleProposals, KeepsMark (row.hit dbs.blockHashes)
          (c₀.map Block.blockHash) (c.map Block.blockHash)) := by
  have hs := hr.synced
  obtain ⟨p,p',t,es,hl₀,hl,hne₁,hne₂,hdiff,hfst,hes⟩ :=
    chainDiff_cursor h.params hs.headers hr.recorded hs.tip hc hr₀ hc₀
  have hlen : c.length-1+1-es.length = t.length := by
    have h₁ := congrArg List.length hl
    have h₂ := congrArg List.length hfst
    have h₃ : 0 < c.length := List.length_pos_iff.mpr hc
    simp only [List.length_map,List.length_append,List.length_reverse] at h₁ h₂
    omega
  have htip : some c.parentHash = c.tipHash := by
    obtain ⟨b,c',rfl⟩ := List.exists_cons_of_ne_nil hc
    rfl
  refine ⟨some (c.length-1),{ (es.zipIdx t.length).foldl PolicyDb.connect
    (p.foldl PolicyDb.disconnect db) with policyTip := some c.parentHash },?_,htip,?_⟩
  · have hneq : ¬ c₀.tipHash = some c.parentHash := by
      rw [htip]
      exact hne
    unfold PolicyDb.reconcile
    rw [ht,hdiff]
    simp only [Fallible.ok_bind,if_neg hneq,hlen]
    rfl
  · change PolicyDb.InLine ((es.zipIdx t.length).foldl PolicyDb.connect
      (p.foldl PolicyDb.disconnect db)) dbs.blockHashes (c.map Block.blockHash) ↔ _
    have hfst' := (map_fst_zipIdx es t.length).trans hfst
    have hcur : p'++t ≠ [] := by
      rw [← hl]
      simpa using hc
    have hmarked := PolicyDb.inLine_iff.mp hin
    have hfold : (es.zipIdx t.length).foldl PolicyDb.connect (p.foldl PolicyDb.disconnect db) =
        (es.zipIdx t.length).foldl PolicyDb.connect (p.foldl PolicyDb.disconnect (db.marked
          (fun r => newest (r.hit dbs.blockHashes) (c₀.map Block.blockHash))
          (fun r => newest (r.hit dbs.blockHashes) (c₀.map Block.blockHash)))) := by rw [hmarked]
    rw [hfold,PolicyDb.marked_foldl_disconnect,PolicyDb.marked_foldl_connect hes,
      PolicyDb.inLine_marked,hfst',hl₀,hl]
    refine and_congr (forall₂_congr fun row _ => ?_) (forall₂_congr fun row _ => ?_)
    · exact move_iff_keepsMark hcur hne₁ hne₂
    · exact move_iff_keepsMark hcur hne₁ hne₂

/-- Reconciling succeeds. It brings the marks in line with the active chain if and only if
no row has to fall back to an older mark. -/
theorem reconcile_inLine_iff (hr : Reach h (NodeValid node) False dbs c)
    (ha : AtCursor h node dbs.blockHashes db) :
    ∃ n db', db.reconcile h.params dbs = .ok (n,db') ∧
      (db'.InLine dbs.blockHashes dbs.activeChain ↔ db.KeepsMarks dbs) ∧
      (db.KeepsMarks dbs → AtCursor h node dbs.blockHashes db') := by
  obtain ⟨c₀,ht,hr₀,hin⟩ := ha
  obtain ⟨hcursor,hactive⟩ := AtCursor.chains hr ht hr₀
  have hs := hr.synced
  unfold PolicyDb.KeepsMarks
  rw [hcursor,hactive]
  by_cases hc : c = []
  · subst hc
    refine ⟨none,db,?_,reconcile_noTip hin,fun _ => ⟨c₀,ht,hr₀,hin⟩⟩
    unfold PolicyDb.reconcile Dbs.chainDiff
    rw [hs.tip]
    rfl
  have hcur : c.map Block.blockHash ≠ [] := by simpa using hc
  by_cases hsame : c₀.tipHash = c.tipHash
  · have hparent : c₀.parentHash = c.parentHash := by rw [parentHash,hsame,parentHash]
    obtain rfl := chain_unique hr₀.valid hs.valid hr₀.linked hs.linked hparent
    obtain ⟨b,c',rfl⟩ := List.exists_cons_of_ne_nil hc
    obtain ⟨p,-,-,es,-,-,-,-,hdiff,-⟩ :=
      chainDiff_cursor h.params hs.headers hr.recorded hs.tip hc hr₀ hc
    refine ⟨some c'.length,db,?_,⟨fun _ => ⟨fun row _ => keepsMark_self _ hcur,
      fun row _ => keepsMark_self _ hcur⟩,fun _ => hin⟩,fun _ => ⟨_,ht,hr₀,hin⟩⟩
    have htip : tipHash (b::c') = some (parentHash (b::c')) := rfl
    unfold PolicyDb.reconcile
    rw [ht,hdiff]
    simp only [Fallible.ok_bind,if_pos htip]
    rfl
  · by_cases hc₀ : c₀ = []
    · subst hc₀
      obtain ⟨n,db',hrec,htip,hin'⟩ := reconcile_rebuild hr hc ht
      exact ⟨n,db',hrec,⟨fun _ => ⟨fun row _ => keepsMark_nil _ _,fun row _ => keepsMark_nil _ _⟩,
        fun _ => hin'⟩,fun _ => ⟨c,htip,hr.recorded,hin'⟩⟩
    · obtain ⟨n,db',hrec,htip,hiff⟩ := reconcile_cursor hr hc hr₀ hc₀ ht hin hsame
      exact ⟨n,db',hrec,hiff,fun hk => ⟨c,htip,hr.recorded,hiff.mpr hk⟩⟩

end Reconcile

section Runs

variable [Bitcoin]

/-- A change of the chain, or a use of the proposal tables. -/
inductive PolicyCall
  | chain (call : Call)
  | reconcile

/-- The validator with its active chain, and the tables of the block producer. -/
structure PolicyNode where
  dbs : Dbs
  chain : Chain
  db : PolicyDb

namespace PolicyNode

variable (h : BlockHandler) (node : BlockHash → Block)

/-- Make one call. A reconcile that fails is rolled back. -/
def call (s : PolicyNode) : PolicyCall → PolicyNode
  | .chain call =>
    let r := call.run h (NodeValid node) (s.dbs,s.chain)
    { s with dbs := r.1, chain := r.2 }
  | .reconcile =>
    match s.db.reconcile h.params s.dbs with
    | .ok (_,db) => { s with db }
    | .error _ => s

def run (db : PolicyDb) (calls : List PolicyCall) : PolicyNode :=
  calls.foldl (call h node) ⟨.empty,[],db⟩

end PolicyNode

def PolicyDb.Unmarked (db : PolicyDb) : Prop :=
  db.policyTip = none ∧ (∀ row ∈ db.sidechainProposals, row.minedIn = none) ∧
    ∀ row ∈ db.bundleProposals, row.settledIn = none ∧ row.paidOut = none

def PolicyCall.isStale : PolicyCall → Bool
  | .chain call => call.isStale
  | .reconcile => false

variable {h : BlockHandler} {node : BlockHash → Block} {db : PolicyDb} {s : PolicyNode}

theorem BlockHashDbs.linked_mem {bh : BlockHashDbs} {c : Chain} (hl : bh.Linked c) :
    ∀ b ∈ c, bh.header.get? b.blockHash = some b.header := by
  induction c with
  | nil => simp
  | cons b c ih =>
    intro b' hb'
    rcases List.mem_cons.mp hb' with rfl | hb'
    · exact hl.1
    · exact ih hl.2.2 b' hb'

/-- The marks of a recorded chain stay in line while more is stored. -/
theorem AtCursor.keeps {bh bh' : BlockHashDbs} (ha : AtCursor h node bh db) (hh : bh.Headers)
    (hk : bh.Keeps bh') (hi : InfosStored h node bh') : AtCursor h node bh' db := by
  obtain ⟨c,ht,hr,hin⟩ := ha
  have hstored : ∀ b ∈ c, ∃ hd, bh.header.get? b.blockHash = some hd :=
    fun b hb => ⟨_,BlockHashDbs.linked_mem hr.linked b hb⟩
  have hsame : ∀ k ∈ c.map Block.blockHash, bh'.heightAt k = bh.heightAt k ∧
      bh'.eventsAt k = bh.eventsAt k := by
    intro k hkmem
    obtain ⟨b,hb,rfl⟩ := List.mem_map.mp hkmem
    obtain ⟨hd,hhd⟩ := hstored b hb
    obtain ⟨n,hn,-⟩ := hh.height _ _ hhd
    obtain ⟨info,-,hhas⟩ := hr.infos b hb
    simp only [BlockHashDbs.heightAt,BlockHashDbs.eventsAt,hn,hk.height _ n hn,hhas.2.2,
      hk.events _ _ hhas.2.2,and_self]
  refine ⟨c,ht,⟨BlockHashDbs.linked_mono hr.linked hk.header,hr.valid,?_⟩,?_,?_⟩
  · intro b hb
    obtain ⟨info,-,hhas⟩ := hr.infos b hb
    exact hi.events _ _ (hk.events _ _ hhas.2.2)
  · intro row hrow
    rw [hin.1 row hrow,newest_congr (fun k hkmem => ?_)]
    simp only [SidechainProposalRow.hit,hsame k hkmem]
  · intro row hrow
    rw [(hin.2 row hrow).1,(hin.2 row hrow).2]
    have hhit : newest (row.hit bh) (c.map Block.blockHash) =
        newest (row.hit bh') (c.map Block.blockHash) := by
      refine newest_congr (fun k hkmem => ?_)
      simp only [BundleProposalRow.hit,hsame k hkmem]
    rw [hhit]
    exact ⟨rfl,rfl⟩

theorem PolicyNode.call_invariant (call : PolicyCall) (hstale : call.isStale = false)
    (hr : Reach h (NodeValid node) False s.dbs s.chain) (ha : AtCursor h node s.dbs.blockHashes s.db)
    (hkeep : call = .reconcile → s.db.KeepsMarks s.dbs) :
    Reach h (NodeValid node) False (s.call h node call).dbs (s.call h node call).chain ∧
      AtCursor h node (s.call h node call).dbs.blockHashes (s.call h node call).db := by
  cases call with
  | chain call =>
    have hr' : Reach h (NodeValid node) False (call.run h (NodeValid node) (s.dbs,s.chain)).1
        (call.run h (NodeValid node) (s.dbs,s.chain)).2 :=
      Call.reach_run call hr (fun he => by
        have hs : call.isStale = false := hstale
        rw [he] at hs
        cases hs)
    have hk := @keeps_run _ node h (s.dbs,s.chain) call hr hstale
    exact ⟨hr',ha.keeps hr.synced.headers hk (hr'.infosStored rfl id)⟩
  | reconcile =>
    obtain ⟨n,db',hrec,-,ha'⟩ := reconcile_inLine_iff hr ha
    have hcall : s.call h node .reconcile = { s with db := db' } := by
      unfold PolicyNode.call
      rw [hrec]
    rw [hcall]
    exact ⟨hr,ha' (hkeep rfl)⟩

theorem PolicyNode.run_invariant {calls : List PolicyCall} (hnew : db.Unmarked)
    (hstale : ∀ call ∈ calls, call.isStale = false)
    (hkeep : ∀ pre post, calls = pre++.reconcile::post →
      (run h node db pre).db.KeepsMarks (run h node db pre).dbs) :
    Reach h (NodeValid node) False (run h node db calls).dbs (run h node db calls).chain ∧
      AtCursor h node (run h node db calls).dbs.blockHashes (run h node db calls).db := by
  induction calls using List.reverseRecOn with
  | nil =>
    refine ⟨.empty,[],hnew.1,⟨trivial,trivial,by simp⟩,?_,?_⟩
    · intro row hrow
      exact hnew.2.1 row hrow
    · intro row hrow
      exact hnew.2.2 row hrow
  | append_singleton calls call ih =>
    obtain ⟨hr,ha⟩ := ih (fun call' hc => hstale call' (List.mem_append_left _ hc))
      (fun pre post he => hkeep pre (post++[call]) (by rw [he]; simp))
    have hrun : run h node db (calls++[call]) = (run h node db calls).call h node call := by
      simp [run]
    rw [hrun]
    refine call_invariant call (hstale call (by simp)) hr ha ?_
    rintro rfl
    exact hkeep calls [] rfl

theorem PolicyNode.reconcile_in_run {calls pre post : List PolicyCall} (hnew : db.Unmarked)
    (hstale : ∀ call ∈ calls, call.isStale = false) (hsplit : calls = pre++.reconcile::post)
    (hkeep : ∀ pre' post', pre = pre'++.reconcile::post' →
      (run h node db pre').db.KeepsMarks (run h node db pre').dbs) :
    ∃ n db', (run h node db pre).db.reconcile h.params (run h node db pre).dbs = .ok (n,db') ∧
      (db'.InLine (run h node db pre).dbs.blockHashes (run h node db pre).dbs.activeChain ↔
        (run h node db pre).db.KeepsMarks (run h node db pre).dbs) := by
  have hstale' : ∀ call ∈ pre, call.isStale = false := by
    intro call hcall
    exact hstale call (by rw [hsplit]; exact List.mem_append_left _ hcall)
  obtain ⟨hr,ha⟩ := run_invariant hnew hstale' hkeep
  obtain ⟨n,db',hrec,hiff,-⟩ := reconcile_inLine_iff hr ha
  exact ⟨n,db',hrec,hiff⟩

/-- In every run of chain changes and reconciles, the reconciles all succeed and leave the
marks of the active chain, so that each row names the last block above the height it was
queued at that has its `M1` or settles its bundle, if and only if no reconcile has to let
a row fall back to an older mark. -/
theorem marks_follow_chain (db : PolicyDb) (calls : List PolicyCall) (hnew : db.Unmarked)
    (hstale : ∀ call ∈ calls, call.isStale = false) :
    (∀ pre post, calls = pre++.reconcile::post →
      ∃ n db', (PolicyNode.run h node db pre).db.reconcile h.params
          (PolicyNode.run h node db pre).dbs = .ok (n,db') ∧
        db'.InLine (PolicyNode.run h node db pre).dbs.blockHashes
          (PolicyNode.run h node db pre).dbs.activeChain) ↔
    ∀ pre post, calls = pre++.reconcile::post →
      (PolicyNode.run h node db pre).db.KeepsMarks (PolicyNode.run h node db pre).dbs := by
  constructor
  · intro hall pre
    -- the first reconcile that breaks a mark would not leave the marks in line
    induction hlen : pre.length using Nat.strong_induction_on generalizing pre with
    | _ len ih =>
      intro post hsplit
      obtain ⟨n,db',hrec,hiff⟩ := PolicyNode.reconcile_in_run hnew hstale hsplit
        (fun pre' post' he => by
          refine ih pre'.length ?_ pre' rfl (post'++.reconcile::post) (by rw [hsplit,he]; simp)
          rw [← hlen,he,List.length_append,List.length_cons]
          omega)
      obtain ⟨n',db'',hrec',hin⟩ := hall pre post hsplit
      obtain ⟨-,rfl⟩ := Prod.mk.inj (Except.ok.inj (hrec.symm.trans hrec'))
      exact hiff.mp hin
  · intro hkeep pre post hsplit
    obtain ⟨n,db',hrec,hiff⟩ := PolicyNode.reconcile_in_run hnew hstale hsplit
      (fun pre' post' he => hkeep pre' (post'++.reconcile::post) (by rw [hsplit,he]; simp))
    exact ⟨n,db',hrec,hiff.mpr (hkeep pre post hsplit)⟩

end Runs

section Sample

open Sample

namespace MarksSample

def handler : BlockHandler := .new (.new .bitcoin .regtest)

def description : List UInt8 := [1,2,3]

def blocks : List Block := blocksOn allZeros 0
  ([([],[]),([m1Script 0 description],[])]++List.replicate 6 ([],[])++
    [([m1Script 0 description],[])])

def node (k : BlockHash) : Block :=
  (blocks.find? (fun b => b.blockHash = k)).getD (blockOn allZeros 0 [] [])

def queued : PolicyDb := ⟨none,[⟨0,sha256d description,none,none⟩],[]⟩

def before : List PolicyCall :=
  (Call.connectAll blocks).map .chain++[.reconcile]++
    (blocks.getLast?.map (fun b => PolicyCall.chain (.disconnect b.blockHash))).toList

def state : PolicyNode := PolicyNode.run handler node queued before

theorem not_inLine {n : Option ℕ} {db : PolicyDb}
    (hrec : state.db.reconcile handler.params state.dbs = .ok (n,db)) :
    ¬ db.InLine state.dbs.blockHashes state.dbs.activeChain := by
  have hrows : (state.db.reconcile handler.params state.dbs).map (fun r => r.2.sidechainProposals) =
      .ok queued.sidechainProposals := by decide +kernel
  rw [hrec] at hrows
  have hdb : db.sidechainProposals = queued.sidechainProposals := Except.ok.inj hrows
  rintro ⟨hin,-⟩
  have hmark := hin ⟨0,sha256d description,none,none⟩ (by rw [hdb]; exact List.mem_cons_self)
  have hne : (newest (SidechainProposalRow.hit ⟨0,sha256d description,none,none⟩
      state.dbs.blockHashes) state.dbs.activeChain).map Prod.fst ≠ none := by decide +kernel
  exact hne hmark.symm

end MarksSample

open MarksSample

theorem marks_follow_chain_sample :
    ¬ ∀ pre post, before++[.reconcile] = pre++.reconcile::post →
      (PolicyNode.run handler node queued pre).db.KeepsMarks
        (PolicyNode.run handler node queued pre).dbs := by
  intro hkeep
  have hnew : queued.Unmarked := ⟨rfl,by decide,by decide⟩
  have hstale : ∀ call ∈ before++[.reconcile], call.isStale = false := by decide +kernel
  obtain ⟨n,db',hrec,hin⟩ := (marks_follow_chain queued (before++[.reconcile]) hnew hstale).mpr hkeep
    before [] rfl
  exact not_inLine hrec hin

/-- A proposal is mined, pruned and mined again. When the last block is disconnected, the
row loses its mark, and a rebuild would mark it with the first block. -/
theorem reorg_loses_mark :
    queued.Unmarked ∧ (∀ call ∈ before++[.reconcile], call.isStale = false) ∧
      ∃ n db, (PolicyNode.run handler node queued before).db.reconcile handler.params
          (PolicyNode.run handler node queued before).dbs = .ok (n,db) ∧
        ¬ db.InLine (PolicyNode.run handler node queued before).dbs.blockHashes
          (PolicyNode.run handler node queued before).dbs.activeChain := by
  refine ⟨⟨rfl,by decide,by decide⟩,by decide +kernel,?_⟩
  obtain ⟨⟨n,db⟩,hrec⟩ : ∃ r, state.db.reconcile handler.params state.dbs = .ok r :=
    Fallible.exists_of_isOk (by decide +kernel)
  exact ⟨n,db,hrec,not_inLine hrec⟩

end Sample

end Bip300301Enforcer
