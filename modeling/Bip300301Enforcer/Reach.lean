import Bip300301Enforcer.Chain

/-! The states that the validator can reach, and that each of them holds the
tables of its active chain. -/
namespace Bip300301Enforcer
open Lib Chain

section Bare

variable {P : Prop} {a a' : ActiveSidechainDbs}

theorem bare_withPendingWithdrawals (ha : ActiveSidechainDbs.Like P a .empty) {s : SidechainNumber}
    {f : PendingM6ids → Res PendingM6ids} : a.withPendingWithdrawals s f ≠ .ok a' := by
  obtain ⟨i,rfl,-⟩ := ha
  intro he
  obtain ⟨p,_,hp,-⟩ := ActiveSidechainDbs.withPendingWithdrawals_ok.mp he
  simp [ActiveSidechainDbs.setIndex,ActiveSidechainDbs.empty] at hp

theorem bare_deleteCtip (ha : ActiveSidechainDbs.Like P a .empty) {s : SidechainNumber} :
    a.deleteCtip s ≠ .ok a' := by
  obtain ⟨i,rfl,-⟩ := ha
  intro he
  obtain ⟨c,hc,-⟩ := Fallible.bind_ok.mp he
  rw [Database.get_ok] at hc
  simp [ActiveSidechainDbs.setIndex,ActiveSidechainDbs.empty] at hc

theorem foldlM_of_fails {σ α : Type} {f : σ → α → Res σ} {l : List α} {s s' : σ}
    (hf : ∀ x s', f s x ≠ .ok s') (hl : l.foldlM f s = .ok s') : s' = s := by
  cases l with
  | nil => exact ((Fallible.pure_ok _ _).mp hl).symm
  | cons x l =>
    obtain ⟨s₁,hs₁,-⟩ := Fallible.bind_ok.mp hl
    exact absurd hs₁ (hf x s₁)

theorem bare_undo_txs (ha : ActiveSidechainDbs.Like P a .empty) {txs : List Diff.Tx}
    (hu : txs.foldlM (fun dbs tx => tx.undo dbs) a = .ok a') : a' = a := by
  refine Fallible.foldlM_invariant (fun a' => a' = a) hu rfl ?_
  rintro tx _ a₁ - rfl hs
  cases tx with
  | m5 d => exact foldlM_of_fails (fun s a' => bare_deleteCtip ha) hs
  | m6 d =>
    obtain ⟨a₂,ha₂,-⟩ := Fallible.bind_ok.mp hs
    exact absurd ha₂ (bare_deleteCtip ha)

theorem bare_undo_ackBundles (ha : ActiveSidechainDbs.Like P a .empty) {d : Diff.AckBundles}
    (hu : d.undo a = .ok a') : a' = a := by
  refine foldlM_of_fails (fun e a' => ?_) hu
  rw [Diff.AckBundleAction.undo_eq]
  exact bare_withPendingWithdrawals ha

theorem bare_undo_failedM6ids (ha : ActiveSidechainDbs.Like P a .empty) {d : Diff.FailedM6ids}
    (hu : d.undo a = .ok a') : a' = a :=
  foldlM_of_fails (fun _ _ => bare_withPendingWithdrawals ha) hu

end Bare

variable [Bitcoin]

namespace BlockHashDbs

/-- Every stored header is stored under its hash and one above its parent. -/
structure Headers (dbs : BlockHashDbs) : Prop where
  hash : ∀ k hd, dbs.header.get? k = some hd → hd.blockHash = k
  height : ∀ k hd, dbs.header.get? k = some hd → ∃ n, dbs.height.get? k = some n ∧
    (hd.prevBlockhash = allZeros → n = 0) ∧
    (hd.prevBlockhash ≠ allZeros → 0 < n ∧ dbs.height.get? hd.prevBlockhash = some (n-1))

/-- A header that the node reports, with its height, given the headers that it
reported before. No two headers have the same hash. -/
structure HeaderFits (dbs : BlockHashDbs) (hd : Header) (n : ℕ) : Prop where
  first : hd.prevBlockhash = allZeros → n = 0
  later : hd.prevBlockhash ≠ allZeros → 0 < n
  known : dbs.height.get? hd.blockHash ∈ [none,some n]
  parentKnown : hd.prevBlockhash ≠ allZeros → dbs.height.get? hd.prevBlockhash ∈ [none,some (n-1)]
  stored : dbs.header.get? hd.blockHash ∈ [none,some hd]
  noLoop : hd.prevBlockhash ≠ hd.blockHash

/-- The blocks of a chain have their headers stored, each on top of the next. -/
def Linked (dbs : BlockHashDbs) : Chain → Prop
  | [] => True
  | b::c => dbs.header.get? b.blockHash = some b.header ∧ b.header.prevBlockhash = parentHash c ∧
      dbs.Linked c

/-- Every stored diff has a header, its work and the diff of its parent. -/
structure Diffs (dbs : BlockHashDbs) : Prop where
  header : ∀ k d, dbs.diff.get? k = some d → ∃ hd, dbs.header.get? k = some hd
  work : ∀ k d, dbs.diff.get? k = some d → ∃ w, dbs.cumulativeWork.get? k = some w
  parent : ∀ k d hd, dbs.diff.get? k = some d → dbs.header.get? k = some hd →
    hd.prevBlockhash ≠ allZeros → ∃ d', dbs.diff.get? hd.prevBlockhash = some d'
  proposals : ∀ k d, dbs.diff.get? k = some d → ∀ id sc,
    d.coinbase.failedProposals.proposals.get? id = some sc →
      sc.proposal.computeId = id ∧ sc.status.activationHeight = none

variable {dbs : BlockHashDbs}

omit [Bitcoin] in
theorem eq_of_known {α : Type} {o : Option α} {a b : α} (ho : o = some a) (hk : o ∈ [none,some b]) :
    b = a := by
  rw [ho] at hk
  simp only [List.mem_cons,List.not_mem_nil,reduceCtorEq,Option.some.injEq,false_or,or_false] at hk
  exact hk.symm

theorem putHeader_header (hd : Header) (n : ℕ) (k : BlockHash) :
    (dbs.putHeader hd n).header.get? k = if hd.blockHash = k then some hd else dbs.header.get? k := by
  simp [putHeader,FinMap.get?_insert]

theorem putHeader_height (hd : Header) (n : ℕ) (hf : dbs.HeaderFits hd n) (k : BlockHash) :
    (dbs.putHeader hd n).height.get? k = if hd.blockHash = k then some n
      else if hd.prevBlockhash ≠ allZeros ∧ hd.prevBlockhash = k then some (n-1)
      else dbs.height.get? k := by
  unfold putHeader
  by_cases hz : hd.prevBlockhash = allZeros
  · simp [hz,FinMap.get?_insert]
  · simp only [hz,if_false,FinMap.get?_insert]
    by_cases hk : hd.prevBlockhash = k
    · subst hk
      simp [hz,Ne.symm hf.noLoop]
    · simp [hk]

theorem putHeader_height_some {hd : Header} {n m : ℕ} (hf : dbs.HeaderFits hd n) {k : BlockHash}
    (hk : dbs.height.get? k = some m) : (dbs.putHeader hd n).height.get? k = some m := by
  rw [putHeader_height hd n hf]
  by_cases hh : hd.blockHash = k
  · subst hh
    rw [if_pos rfl,eq_of_known hk hf.known]
  · rw [if_neg hh]
    by_cases hp : hd.prevBlockhash ≠ allZeros ∧ hd.prevBlockhash = k
    · obtain ⟨hz,rfl⟩ := hp
      rw [if_pos ⟨hz,rfl⟩,eq_of_known hk (hf.parentKnown hz)]
    · rw [if_neg hp,hk]

theorem putHeader_header_some {hd hd' : Header} {n : ℕ} (hf : dbs.HeaderFits hd n) {k : BlockHash}
    (hk : dbs.header.get? k = some hd') : (dbs.putHeader hd n).header.get? k = some hd' := by
  rw [putHeader_header]
  by_cases hh : hd.blockHash = k
  · subst hh
    rw [if_pos rfl,eq_of_known hk hf.stored]
  · rw [if_neg hh,hk]

theorem headers_putHeader {hd : Header} {n : ℕ} (h : dbs.Headers) (hf : dbs.HeaderFits hd n) :
    (dbs.putHeader hd n).Headers := by
  constructor
  · intro k hd' hk
    rw [putHeader_header] at hk
    split at hk
    · rename_i he
      obtain rfl := Option.some.inj hk
      exact he
    · exact h.hash k hd' hk
  · intro k hd' hk
    rw [putHeader_header] at hk
    split at hk
    · rename_i he
      obtain rfl := Option.some.inj hk
      refine ⟨n,by rw [putHeader_height hd n hf,if_pos he],hf.first,fun hz => ⟨hf.later hz,?_⟩⟩
      rw [putHeader_height hd n hf,if_neg (Ne.symm hf.noLoop),if_pos ⟨hz,rfl⟩]
    · obtain ⟨m,hm,h₁,h₂⟩ := h.height k hd' hk
      refine ⟨m,putHeader_height_some hf hm,h₁,fun hz => ⟨(h₂ hz).1,?_⟩⟩
      exact putHeader_height_some hf (h₂ hz).2

theorem linked_mono {dbs' : BlockHashDbs} {c : Chain} (hl : dbs.Linked c)
    (hh : ∀ k hd, dbs.header.get? k = some hd → dbs'.header.get? k = some hd) : dbs'.Linked c := by
  induction c with
  | nil => trivial
  | cons b c ih => exact ⟨hh _ _ hl.1,hl.2.1,ih hl.2.2⟩

theorem linked_height {b : Block} {c : Chain} (hh : dbs.Headers) (hl : dbs.Linked (b::c)) :
    dbs.height.get? b.blockHash = some c.length := by
  induction c generalizing b with
  | nil =>
    obtain ⟨n,hn,h₁,-⟩ := hh.height _ _ hl.1
    rw [hn,h₁ hl.2.1]
    rfl
  | cons b' c ih =>
    obtain ⟨n,hn,-,h₂⟩ := hh.height _ _ hl.1
    have hne : b.header.prevBlockhash ≠ allZeros := by
      rw [hl.2.1,parentHash_cons]
      exact b'.header.blockHash_ne
    obtain ⟨hpos,hprev⟩ := h₂ hne
    have hb' := ih hl.2.2
    rw [hl.2.1,parentHash_cons,hb'] at hprev
    have hlen := Option.some.inj hprev
    rw [hn,List.length_cons]
    congr 1
    omega

theorem linked_hash_ne {b : Block} {c : Chain} (hh : dbs.Headers) (hl : dbs.Linked (b::c)) :
    b.blockHash ∉ c.map Block.blockHash := by
  have main : ∀ (c' : Chain) (n : ℕ), c'.length ≤ n → dbs.Linked c' →
      ∀ b' ∈ c', ∃ m, dbs.height.get? b'.blockHash = some m ∧ m < n := by
    intro c'
    induction c' with
    | nil => simp
    | cons b₀ c' ih =>
      intro n hn hlc b' hb'
      rw [List.length_cons] at hn
      rcases List.mem_cons.mp hb' with rfl | hb'
      · exact ⟨c'.length,linked_height hh hlc,by omega⟩
      · exact ih n (by omega) hlc.2.2 b' hb'
  intro hm
  obtain ⟨b',hb',he⟩ := List.mem_map.mp hm
  obtain ⟨m,hm,hlt⟩ := main c c.length le_rfl hl.2.2 b' hb'
  rw [he,linked_height hh hl] at hm
  obtain rfl := Option.some.inj hm
  omega

end BlockHashDbs

open BlockHandler

/-- The states that the validator can reach, each with its active chain. The node
reports headers, the mempool tables change, blocks that are `V` on the active
chain are connected, and blocks are disconnected. A disconnect without any tip
is a `stale` step if it finds a diff, and leads to some chain of valid blocks. -/
inductive Reach (h : BlockHandler) (V : Chain → Block → Prop) (stale : Prop) : Dbs → Chain → Prop
  | empty : Reach h V stale .empty []
  | header {dbs : Dbs} {c : Chain} {hd : Header} {n : ℕ} (reach : Reach h V stale dbs c)
      (fits : dbs.blockHashes.HeaderFits hd n) :
      Reach h V stale { dbs with blockHashes := dbs.blockHashes.putHeader hd n } c
  | mempool {dbs : Dbs} {c : Chain} {seen : Database OutPoint (SidechainNumber × ℕ)}
      {requests : List SeenBmmRequest} (reach : Reach h V stale dbs c) :
      Reach h V stale { dbs with
        seenUnconsolidatedCtipOutputs := seen
        blockHashes := { dbs.blockHashes with seenBmmRequestTxs := requests } } c
  | connect {dbs dbs' : Dbs} {c : Chain} {b : Block} {event : Event} (reach : Reach h V stale dbs c)
      (valid : V c b) (header : dbs.blockHashes.header.get? b.blockHash = some b.header)
      (connected : h.connectBlock dbs b = .ok (event,dbs')) : Reach h V stale dbs' (b::c)
  | disconnect {dbs dbs' : Dbs} {c : Chain} {hash : BlockHash} {events : List Event}
      (reach : Reach h V stale dbs c)
      (guard : dbs.currentChainTip = none → dbs.blockHashes.diff.get? hash = none)
      (disconnected : disconnectBlock dbs hash = .ok (events,dbs')) :
      Reach h V stale dbs' (if dbs.blockHashes.diff.contains hash then c.tail else c)
  | staleDisconnect {dbs dbs' : Dbs} {c : Chain} {hash : BlockHash} {events : List Event}
      (allowed : stale) (reach : Reach h V stale dbs []) (noTip : dbs.currentChainTip = none)
      (disconnected : disconnectBlock dbs hash = .ok (events,dbs')) (valid : c.Valid V)
      (linked : dbs.blockHashes.Linked c) (tip : dbs'.currentChainTip = c.tipHash) :
      Reach h V stale dbs' c

/-- What holds of every state that can be reached. -/
structure Synced (h : BlockHandler) (V : Chain → Block → Prop) (stale : Prop) (dbs : Dbs) (c : Chain) :
    Prop where
  headers : dbs.blockHashes.Headers
  diffs : dbs.blockHashes.Diffs
  linked : dbs.blockHashes.Linked c
  valid : c.Valid V
  tip : dbs.currentChainTip = c.tipHash
  stored : c ≠ [] → ∃ d, dbs.blockHashes.diff.get? c.parentHash = some d
  grown : Grown h V stale dbs.blockHashes.diff.get? c dbs.toConsensusDbs

namespace BlockHashDbs

def recorded (dbs : BlockHashDbs) (hash : BlockHash) (info : BlockInfo) (d : Diff.Block) (w : ℕ) :
    BlockHashDbs :=
  { dbs with
    bmmCommitments := dbs.bmmCommitments.insert hash info.bmmCommitments
    coinbaseTxid := dbs.coinbaseTxid.insert hash info.coinbaseTxid
    cumulativeWork := dbs.cumulativeWork.insert hash w
    events := dbs.events.insert hash info.events
    diff := dbs.diff.insert hash d }

/-- A recorded block has a header, its work and the diff of its parent. -/
theorem diffs_recorded {dbs : BlockHashDbs} {hash : BlockHash} {hd : Header} {info : BlockInfo}
    {d : Diff.Block} {w : ℕ} (h : dbs.Diffs) (hh : dbs.header.get? hash = some hd)
    (hparent : hd.prevBlockhash ≠ allZeros → ∃ d', dbs.diff.get? hd.prevBlockhash = some d')
    (hok : ∀ id sc, d.coinbase.failedProposals.proposals.get? id = some sc →
      sc.proposal.computeId = id ∧ sc.status.activationHeight = none) :
    (dbs.recorded hash info d w).Diffs := by
  have hget (k : BlockHash) : (dbs.recorded hash info d w).diff.get? k =
      if hash = k then some d else dbs.diff.get? k := FinMap.get?_insert _ _ _ _
  have hkeep (k : BlockHash) (hk : ∃ d', dbs.diff.get? k = some d') :
      ∃ d', (dbs.recorded hash info d w).diff.get? k = some d' := by
    rw [hget]
    split
    · exact ⟨d,rfl⟩
    · exact hk
  constructor
  · intro k d' hk
    rw [hget] at hk
    split at hk
    · rename_i he
      subst he
      exact ⟨hd,hh⟩
    · exact h.header k d' hk
  · intro k d' hk
    rw [hget] at hk
    simp only [recorded,FinMap.get?_insert]
    split
    · exact ⟨w,rfl⟩
    · rename_i hne
      rw [if_neg hne] at hk
      exact h.work k d' hk
  · intro k d' hd' hk hhd' hz
    apply hkeep
    rw [hget] at hk
    split at hk
    · rename_i he
      subst he
      obtain rfl : hd = hd' := Option.some.inj (hh.symm.trans hhd')
      exact hparent hz
    · exact h.parent k d' hd' hk hhd' hz
  · intro k d' hk
    rw [hget] at hk
    split at hk
    · obtain rfl := Option.some.inj hk
      exact hok
    · exact h.proposals k d' hk

theorem putBlockInfo_ok {dbs dbs' : BlockHashDbs} {hash : BlockHash} {info : BlockInfo}
    {d : Diff.Block} : dbs.putBlockInfo hash info d = .ok dbs' ↔
      ∃ hd w, dbs.header.get? hash = some hd ∧ dbs.chainWork hash hd = .ok w ∧
        dbs' = dbs.recorded hash info d w := by
  simp only [putBlockInfo,Fallible.bind_ok,Fallible.require_ok,Fallible.pure_ok]
  constructor
  · rintro ⟨hd,hhd,w,hw,rfl⟩; exact ⟨hd,w,hhd,hw,rfl⟩
  · rintro ⟨hd,w,hhd,hw,rfl⟩; exact ⟨hd,hhd,w,hw,rfl⟩

end BlockHashDbs

namespace BlockHandler

variable {h : BlockHandler} {dbs dbs' : Dbs} {b : Block} {event : Event}

omit [Bitcoin] in
theorem ensureTipIsParent_ok {parent : BlockHash} {u : Unit} :
    ensureTipIsParent dbs parent = .ok u ↔ parent = dbs.currentChainTip.getD allZeros := by
  unfold ensureTipIsParent
  cases dbs.currentChainTip with
  | none => by_cases hp : parent = allZeros <;> simp [hp]
  | some tip => by_cases hp : parent = tip <;> simp [hp]

/-- What is known about an accepted block before it is recorded. -/
structure PartiallyAccepted (h : BlockHandler) (dbs : Dbs) (b : Block) (n : ℕ)
    (coinbase : Transaction) (txs : List Transaction) (res : ProcessedBlock) : Prop where
  parent : b.header.prevBlockhash = dbs.currentChainTip.getD allZeros
  height : dbs.blockHashes.height.get? b.blockHash = some n
  txdata : b.txdata = coinbase::txs
  processed : h.processBlock dbs.toConsensusDbs n b.header.prevBlockhash b.blockHash
    (dbs.blockHashes.diff.get? b.header.prevBlockhash) coinbase txs = .ok res

def headerInfoOf (b : Block) (n : ℕ) : HeaderInfo :=
  ⟨b.blockHash,b.header.prevBlockhash,n,b.header.work,b.header.time⟩

theorem partialConnectBlock_ok {info : PartiallyConnectedBlockInfo} :
    h.partialConnectBlock dbs b = .ok (info,dbs') ↔
      ∃ n coinbase txs res, PartiallyAccepted h dbs b n coinbase txs res ∧
        dbs' = { dbs with toConsensusDbs := res.dbs } ∧
        info = ⟨headerInfoOf b n,res.blockInfo,res.diff,res.unconsolidatedCtips⟩ := by
  unfold partialConnectBlock
  simp only [Fallible.bind_ok,ensureTipIsParent_ok,Database.get_ok]
  cases htx : b.txdata with
  | nil =>
    constructor
    · rintro ⟨_,-,n,-,hth⟩
      exact absurd hth (by simp)
    · rintro ⟨n,coinbase,txs,res,hp,-⟩
      have := hp.txdata
      rw [htx] at this
      cases this
  | cons coinbase txs =>
    simp only [Fallible.bind_ok,Fallible.pure_ok,Prod.mk.injEq]
    constructor
    · rintro ⟨_,hp,n,hn,res,hres,rfl,rfl⟩
      exact ⟨n,coinbase,txs,res,⟨hp,hn,htx,hres⟩,rfl,rfl⟩
    · rintro ⟨n,coinbase',txs',res,hp,rfl,rfl⟩
      obtain ⟨rfl,rfl⟩ := List.cons.inj (htx.symm.trans hp.txdata)
      exact ⟨(),hp.parent,n,hp.height,res,hp.processed,rfl,rfl⟩

/-- Recording a block on top of the tip, whose work is known, advances the tip. -/
theorem recordBlock_ok {info : HeaderInfo} {blockInfo : BlockInfo} {d : Diff.Block}
    (hr : recordBlock dbs info blockInfo d = .ok (event,dbs')) :
    ∃ hd w, dbs.blockHashes.header.get? info.blockHash = some hd ∧
      dbs.blockHashes.chainWork info.blockHash hd = .ok w ∧ event = .connectBlock info blockInfo ∧
      ∃ tip, dbs' = { dbs with
        blockHashes := dbs.blockHashes.recorded info.blockHash blockInfo d w, currentChainTip := tip } ∧
      ((dbs.currentChainTip = none ∧ hd.prevBlockhash = allZeros) ∨
        dbs.currentChainTip = some hd.prevBlockhash → hd.prevBlockhash ≠ info.blockHash →
        (dbs.currentChainTip ≠ none → hd.prevBlockhash ≠ allZeros) → tip = some info.blockHash) := by
  obtain ⟨bh,hbh,hr⟩ := Fallible.bind_ok.mp hr
  obtain ⟨hd,w,hhd,hw,rfl⟩ := BlockHashDbs.putBlockInfo_ok.mp hbh
  obtain ⟨tw,htip,hr⟩ := Fallible.bind_ok.mp hr
  obtain ⟨work,hwork,hr⟩ := Fallible.bind_ok.mp hr
  rw [Database.get_ok] at hwork
  have hww : work = w := by
    simp only [BlockHashDbs.recorded,FinMap.get?_insert_self] at hwork
    exact (Option.some.inj hwork).symm
  subst hww
  simp only [Fallible.pure_ok,Prod.mk.injEq] at hr
  obtain ⟨rfl,rfl⟩ := hr
  refine ⟨hd,work,hhd,hw,rfl,_,rfl,?_⟩
  rintro (⟨hnone,hz⟩ | hsome) hne hnz
  · rw [hnone] at htip
    obtain rfl := Except.ok.inj htip
    rfl
  · rw [hsome,tipWork] at htip
    have hz := hnz (by simp [hsome])
    -- the work of the tip is the work of the parent, and a block adds work
    cases hg : (Database.get (dbs.blockHashes.recorded info.blockHash blockInfo d work).cumulativeWork
        .cumulativeWork hd.prevBlockhash) with
    | error e => rw [hg] at htip; cases htip
    | ok v =>
      rw [hg] at htip
      obtain rfl := Except.ok.inj htip
      rw [Database.get_ok] at hg
      simp only [BlockHashDbs.recorded,FinMap.get?_insert_ne _ _ (Ne.symm hne)] at hg
      simp only [BlockHashDbs.chainWork,hz,if_false,Fallible.bind_ok,Fallible.require_ok,
        Fallible.pure_ok] at hw
      obtain ⟨v',hv',rfl⟩ := hw
      obtain rfl := Option.some.inj (hg.symm.trans hv')
      have hpos := hd.work_pos
      have hlt : v < v+hd.work := by omega
      simp [hlt]

theorem finalizeConnectBlock_ok {info : PartiallyConnectedBlockInfo} :
    finalizeConnectBlock dbs info = .ok (event,dbs') ↔
      info.unconsolidatedCtips.byOutpoint = .empty ∧
        recordBlock dbs info.headerInfo info.blockInfo info.diff = .ok (event,dbs') := by
  have hempty : info.unconsolidatedCtips.byOutpoint = .empty ↔
      info.unconsolidatedCtips.byOutpoint.toList = [] := by
    rw [← FinMap.isEmpty_iff,FinMap.isEmpty,List.isEmpty_iff]
  unfold finalizeConnectBlock
  rw [hempty]
  cases info.unconsolidatedCtips.byOutpoint.toList with
  | nil => simp
  | cons e l => simp

theorem connectBlock_ok :
    h.connectBlock dbs b = .ok (event,dbs') ↔
      ∃ n coinbase txs res, PartiallyAccepted h dbs b n coinbase txs res ∧
        res.unconsolidatedCtips.byOutpoint = .empty ∧
        recordBlock { dbs with toConsensusDbs := res.dbs } (headerInfoOf b n) res.blockInfo res.diff =
          .ok (event,dbs') := by
  unfold connectBlock
  simp only [Fallible.bind_ok,Prod.exists,partialConnectBlock_ok,finalizeConnectBlock_ok]
  constructor
  · rintro ⟨info,_,⟨n,coinbase,txs,res,hp,rfl,rfl⟩,he,hr⟩
    exact ⟨n,coinbase,txs,res,hp,he,hr⟩
  · rintro ⟨n,coinbase,txs,res,hp,he,hr⟩
    exact ⟨_,_,⟨n,coinbase,txs,res,hp,rfl,rfl⟩,he,hr⟩

/-- A disconnect does nothing, or undoes the diff of the block. -/
theorem disconnectBlock_ok {hash : BlockHash} {events : List Event} :
    disconnectBlock dbs hash = .ok (events,dbs') ↔
      (dbs.blockHashes.diff.get? hash = none ∧ events = [] ∧ dbs' = dbs) ∨
      ∃ d hd n t, dbs.blockHashes.diff.get? hash = some d ∧
        (∀ tip, dbs.currentChainTip = some tip → tip = hash) ∧
        dbs.blockHashes.header.get? hash = some hd ∧ hd.blockHash = hash ∧
        dbs.blockHashes.height.get? hash = some n ∧ d.undo dbs.toConsensusDbs = .ok t ∧
        events = [.disconnectBlock hash] ∧
        dbs' = { dbs with
          toConsensusDbs := t
          currentChainTip := if hd.prevBlockhash ≠ allZeros then some hd.prevBlockhash else none } := by
  unfold disconnectBlock
  cases hd : dbs.blockHashes.diff.get? hash with
  | none => simp [eq_comm]
  | some d =>
    simp only [Fallible.bind_ok,BlockHashDbs.getHeaderInfo,Fallible.require_ok,Fallible.ensure_ok,
      decide_eq_true_eq,Database.get_ok,Fallible.pure_ok,Prod.mk.injEq,reduceCtorEq,false_and,
      false_or,Option.some.injEq]
    have htip : ∀ u : Unit, checkTip dbs hash = .ok u ↔
        ∀ tip, dbs.currentChainTip = some tip → tip = hash := by
      intro u
      unfold checkTip
      cases dbs.currentChainTip with
      | none => simp
      | some tip => simp
    simp only [htip]
    constructor
    · rintro ⟨_,ht,_,⟨hd,hhd,_,hhash,n,hn,rfl⟩,t,hundo,rfl,rfl⟩
      exact ⟨d,hd,n,t,rfl,ht,hhd,hhash,hn,hundo,rfl,rfl⟩
    · rintro ⟨d',hd,n,t,rfl,ht,hhd,hhash,hn,hundo,rfl,rfl⟩
      exact ⟨(),ht,_,⟨hd,hhd,(),hhash,n,hn,rfl⟩,t,hundo,rfl,rfl⟩

end BlockHandler

section Bare

variable {P : Prop} {t t' : ConsensusDbs}

theorem bare_undo_ackSidechain (hb : t.Bare P) {d : Diff.AckSidechainProposal}
    (hu : d.undo t = .ok t') : t'.Bare P := by
  obtain ⟨⟨sc,t₁⟩,hd,hu⟩ := Fallible.bind_ok.mp hu
  obtain ⟨_,-,hu⟩ := Fallible.bind_ok.mp hu
  rw [Fallible.pure_ok] at hu
  subst hu
  have hnone : ∀ sc', Database.get t.activeSidechains.sidechain .sidechain d.id.sidechainNumber ≠
      .ok sc' := by
    intro sc' hs
    obtain ⟨i,hi,-⟩ := hb.active
    rw [Database.get_ok,hi] at hs
    simp [ActiveSidechainDbs.setIndex,ActiveSidechainDbs.empty] at hs
  unfold Diff.AckSidechainProposal.deactivate at hd
  cases he : d.effect with
  | noActivation =>
    simp only [he,Fallible.bind_ok,Database.get_ok,Fallible.pure_ok,Prod.mk.injEq] at hd
    obtain ⟨sc',hsc',rfl,rfl⟩ := hd
    refine ⟨hb.active,?_⟩
    intro id sc'' hs
    simp only [FinMap.get?_insert] at hs
    split at hs
    · rename_i hid
      obtain rfl := Option.some.inj hs
      rw [← hid]
      exact hb.proposals d.id sc' hsc'
    · exact hb.proposals id sc'' hs
  | replaceActive prev =>
    simp only [he] at hd
    obtain ⟨sc',hsc',-⟩ := Fallible.bind_ok.mp hd
    exact absurd hsc' (hnone sc')
  | slotActivation =>
    simp only [he] at hd
    obtain ⟨sc',hsc',-⟩ := Fallible.bind_ok.mp hd
    exact absurd hsc' (hnone sc')

theorem bare_undo_message (hb : t.Bare P) {d : Diff.CoinbaseMsg} (hu : d.undo t = .ok t') :
    t'.Bare P := by
  cases d with
  | ackSidechainProposal d => exact bare_undo_ackSidechain hb hu
  | newSidechainProposal d =>
    obtain rfl := Except.ok.inj hu
    refine ⟨hb.active,?_⟩
    intro id sc hs
    simp only [Diff.NewSidechainProposal.undo,FinMap.get?_erase] at hs
    split at hs
    · cases hs
    · exact hb.proposals id sc hs
  | ackBundles d =>
    obtain ⟨a,ha,hu⟩ := Fallible.bind_ok.mp hu
    rw [Fallible.pure_ok] at hu
    subst hu
    rw [bare_undo_ackBundles hb.active ha]
    exact hb
  | proposeBundle d =>
    obtain ⟨a,ha,hu⟩ := Fallible.bind_ok.mp hu
    exact absurd ha (bare_withPendingWithdrawals hb.active)

theorem bare_undo_block (hb : t.Bare P) {d : Diff.Block}
    (hd : ∀ id sc, d.coinbase.failedProposals.proposals.get? id = some sc →
      sc.proposal.computeId = id ∧ sc.status.activationHeight = none)
    (hu : d.undo t = .ok t') : t'.Bare P := by
  obtain ⟨a,ha,hu⟩ := Fallible.bind_ok.mp hu
  rw [bare_undo_txs hb.active ha] at hu
  obtain ⟨a₂,ha₂,hu⟩ := Fallible.bind_ok.mp hu
  rw [bare_undo_failedM6ids hb.active ha₂] at hu
  refine Fallible.foldlM_invariant (fun t => t.Bare P) hu ⟨hb.active,?_⟩
    (fun d t t' _ hb hs => bare_undo_message hb hs)
  intro id sc hs
  simp only [Diff.FailedProposals.undo,FinMap.get?_insertAll _ _ (FinMap.nodup_keys _)] at hs
  split at hs
  · rename_i e hfind
    obtain rfl := Option.some.inj hs
    have hid : e.1 = id := by simpa using List.find?_some hfind
    rw [← hid]
    exact hd _ _ (FinMap.mem_toList.mp (List.mem_of_find?_eq_some hfind))
  · exact hb.proposals id sc hs

end Bare

namespace Synced

variable {h : BlockHandler} {V : Chain → Block → Prop} {stale : Prop} {dbs dbs' : Dbs} {c : Chain}

theorem empty : Synced h V stale .empty [] := by
  constructor
  · constructor <;> · intro k hd hk; simp [Dbs.empty,BlockHashDbs.empty] at hk
  · constructor
    · intro k d hk; simp [Dbs.empty,BlockHashDbs.empty] at hk
    · intro k d hk; simp [Dbs.empty,BlockHashDbs.empty] at hk
    · intro k d hd hk; simp [Dbs.empty,BlockHashDbs.empty] at hk
    · intro k d hk; simp [Dbs.empty,BlockHashDbs.empty] at hk
  · trivial
  · trivial
  · rfl
  · intro hne; exact absurd rfl hne
  · refine .base ⟨⟨.refl _ _,?_⟩,fun _ => ⟨rfl,rfl⟩⟩
    intro id sc hs
    simp [Dbs.empty,ConsensusDbs.empty] at hs

theorem header {hd : Header} {n : ℕ} (hs : Synced h V stale dbs c)
    (hf : dbs.blockHashes.HeaderFits hd n) :
    Synced h V stale { dbs with blockHashes := dbs.blockHashes.putHeader hd n } c := by
  refine ⟨BlockHashDbs.headers_putHeader hs.headers hf,?_,?_,hs.valid,hs.tip,hs.stored,hs.grown⟩
  · constructor
    · intro k d hk
      obtain ⟨hd',hhd'⟩ := hs.diffs.header k d hk
      exact ⟨hd',BlockHashDbs.putHeader_header_some hf hhd'⟩
    · exact hs.diffs.work
    · intro k d hd' hk hhd'
      obtain ⟨hd'',hhd''⟩ := hs.diffs.header k d hk
      have := BlockHashDbs.putHeader_header_some hf hhd''
      rw [hhd'] at this
      obtain rfl := Option.some.inj this
      exact hs.diffs.parent k d _ hk hhd''
    · exact hs.diffs.proposals
  · exact BlockHashDbs.linked_mono hs.linked
      (fun k hd' hk => BlockHashDbs.putHeader_header_some hf hk)

theorem mempool {seen : Database OutPoint (SidechainNumber × ℕ)} {requests : List SeenBmmRequest}
    (hs : Synced h V stale dbs c) :
    Synced h V stale { dbs with
      seenUnconsolidatedCtipOutputs := seen
      blockHashes := { dbs.blockHashes with seenBmmRequestTxs := requests } } c :=
  ⟨⟨hs.headers.hash,hs.headers.height⟩,
    ⟨hs.diffs.header,hs.diffs.work,hs.diffs.parent,hs.diffs.proposals⟩,
    BlockHashDbs.linked_mono hs.linked (fun _ _ hk => hk),hs.valid,hs.tip,hs.stored,hs.grown⟩

theorem parent_eq (hs : Synced h V stale dbs c) :
    dbs.currentChainTip.getD allZeros = c.parentHash := by
  rw [hs.tip]
  rfl

theorem linked_cons {b : Block} {n : ℕ} {coinbase : Transaction} {txs : List Transaction}
    {res : ProcessedBlock} (hs : Synced h V stale dbs c)
    (hh : dbs.blockHashes.header.get? b.blockHash = some b.header)
    (hp : PartiallyAccepted h dbs b n coinbase txs res) :
    dbs.blockHashes.Linked (b::c) := ⟨hh,hp.parent.trans hs.parent_eq,hs.linked⟩

theorem accepted {b : Block} {n : ℕ} {coinbase : Transaction} {txs : List Transaction}
    {res : ProcessedBlock} (hs : Synced h V stale dbs c)
    (hh : dbs.blockHashes.header.get? b.blockHash = some b.header)
    (hp : PartiallyAccepted h dbs b n coinbase txs res)
    (he : res.unconsolidatedCtips.byOutpoint = .empty) :
    n = c.length ∧
      Accepted h dbs.blockHashes.diff.get? c dbs.toConsensusDbs b coinbase txs res := by
  have hn : n = c.length := by
    have hheight := BlockHashDbs.linked_height hs.headers (hs.linked_cons hh hp)
    rw [hp.height] at hheight
    exact Option.some.inj hheight
  subst hn
  exact ⟨rfl,hp.parent.trans hs.parent_eq,hp.txdata,hp.processed,he⟩

theorem connected {b : Block} {event : Event} {dbs' : Dbs} (hs : Synced h V stale dbs c)
    (hh : dbs.blockHashes.header.get? b.blockHash = some b.header)
    (hc : h.connectBlock dbs b = .ok (event,dbs')) :
    ∃ coinbase txs res,
      Accepted h dbs.blockHashes.diff.get? c dbs.toConsensusDbs b coinbase txs res ∧
      event = .connectBlock (headerInfoOf b c.length) res.blockInfo ∧
      dbs'.toConsensusDbs = res.dbs ∧
      dbs'.blockHashes.diff = dbs.blockHashes.diff.insert b.blockHash res.diff := by
  obtain ⟨n,coinbase,txs,res,hp,he,hr⟩ := connectBlock_ok.mp hc
  obtain ⟨rfl,ha⟩ := hs.accepted hh hp he
  obtain ⟨hd,w,-,-,rfl,tip,rfl,-⟩ := recordBlock_ok hr
  exact ⟨coinbase,txs,res,ha,rfl,rfl,rfl⟩

theorem failedProposals_ok {t : ConsensusDbs} {n : ℕ} {parent hash : BlockHash}
    {prevDiff : Option Diff.Block} {coinbase : Transaction} {txs : List Transaction}
    {res : ProcessedBlock} (hw : t.Wf)
    (hp : h.processBlock t n parent hash prevDiff coinbase txs = .ok res) (id : SidechainProposalId)
    (sc : Sidechain) (hsc : res.diff.coinbase.failedProposals.proposals.get? id = some sc) :
    sc.proposal.computeId = id ∧ sc.status.activationHeight = none := by
  rcases processBlock_ok hp with ⟨-,rfl⟩ | ⟨-,scan,t₁,t₂,accepted,events,d,acc,-,hc,-,rfl⟩
  · simp [emptyBlockInfoAndDiff] at hsc
  · simp only [hc.failedProposals,handleFailedSidechainProposals,FinMap.get?_filter] at hsc
    exact (hc.wf hw).1.proposals id sc (Option.filter_eq_some_iff.mp hsc).1

theorem connect {b : Block} {event : Event} (hs : Synced h V stale dbs c) (hv : V c b)
    (hh : dbs.blockHashes.header.get? b.blockHash = some b.header)
    (hc : h.connectBlock dbs b = .ok (event,dbs')) : Synced h V stale dbs' (b::c) := by
  obtain ⟨n,coinbase,txs,res,hp,he,hr⟩ := connectBlock_ok.mp hc
  have hlinked := hs.linked_cons hh hp
  obtain ⟨rfl,ha⟩ := hs.accepted hh hp he
  obtain ⟨hd,w,hhd,hw,-,tip,rfl,htip⟩ := recordBlock_ok hr
  obtain rfl : hd = b.header := Option.some.inj (hhd.symm.trans hh)
  have hnotin := BlockHashDbs.linked_hash_ne hs.headers hlinked
  have hdiff (k : BlockHash) (hk : k ≠ b.blockHash) :
      (dbs.blockHashes.recorded b.blockHash res.blockInfo res.diff w).diff.get? k =
        dbs.blockHashes.diff.get? k := FinMap.get?_insert_ne _ _ (Ne.symm hk)
  have hprevne : b.header.prevBlockhash ≠ b.blockHash := by
    rw [ha.parent]
    cases c with
    | nil => exact Ne.symm b.header.blockHash_ne
    | cons b' c =>
      intro heq
      exact hnotin (by rw [← heq]; simp [parentHash_cons])
  have hgrown : Grown h V stale
      (dbs.blockHashes.recorded b.blockHash res.blockInfo res.diff w).diff.get? c
      dbs.toConsensusDbs := by
    refine hs.grown.congr ?_
    rintro k (rfl | hk)
    · exact hdiff _ (Ne.symm b.header.blockHash_ne)
    · refine hdiff _ ?_
      rintro rfl
      exact hnotin hk
  refine ⟨⟨hs.headers.hash,hs.headers.height⟩,?_,BlockHashDbs.linked_mono hlinked (fun _ _ hk => hk),
    ⟨hv,hs.valid⟩,?_,fun _ => ⟨res.diff,FinMap.get?_insert_self _ _ _⟩,?_⟩
  · refine BlockHashDbs.diffs_recorded hs.diffs hh ?_ (failedProposals_ok hs.grown.wf.1 ha.processed)
    intro hz
    rw [ha.parent] at hz ⊢
    exact hs.stored (fun hnil => hz (parentHash_eq_zeros.mpr hnil))
  · refine htip ?_ hprevne ?_
    · rw [hs.tip,ha.parent]
      cases c with
      | nil => exact .inl ⟨rfl,rfl⟩
      | cons b' c => exact .inr rfl
    · intro hne
      rw [ha.parent]
      intro hz
      rw [hs.tip,parentHash_eq_zeros.mp hz] at hne
      exact hne rfl
  · have hprocessed := ha.processed
    rw [← hdiff _ hprevne] at hprocessed
    exact .connect hgrown hv ⟨ha.parent,ha.txdata,hprocessed,ha.consolidated⟩
      (FinMap.get?_insert_self _ _ _) (.refl _ _)

theorem undone {c' : Chain} {t : ConsensusDbs} (hs : Synced h V stale dbs c)
    (hlinked : dbs.blockHashes.Linked c') (hvalid : c'.Valid V)
    (hstored : c' ≠ [] → ∃ d, dbs.blockHashes.diff.get? c'.parentHash = some d)
    (hgrown : Grown h V stale dbs.blockHashes.diff.get? c' t) :
    Synced h V stale { dbs with toConsensusDbs := t, currentChainTip := c'.tipHash } c' :=
  ⟨hs.headers,hs.diffs,hlinked,hvalid,rfl,hstored,hgrown⟩

theorem parent_stored {hash : BlockHash} {d : Diff.Block} {hd : Header} {c' : Chain}
    (hs : Synced h V stale dbs c) (hdiff : dbs.blockHashes.diff.get? hash = some d)
    (hhd : dbs.blockHashes.header.get? hash = some hd) (hparent : hd.prevBlockhash = c'.parentHash) :
    c' ≠ [] → ∃ d, dbs.blockHashes.diff.get? c'.parentHash = some d := by
  intro hne
  rw [← hparent]
  refine hs.diffs.parent hash d hd hdiff hhd ?_
  rw [hparent]
  exact fun hz => hne (parentHash_eq_zeros.mp hz)

theorem disconnect {hash : BlockHash} {events : List Event} (hs : Synced h V stale dbs c)
    (hguard : dbs.currentChainTip = none → dbs.blockHashes.diff.get? hash = none)
    (hd : disconnectBlock dbs hash = .ok (events,dbs')) :
    Synced h V stale dbs' (if dbs.blockHashes.diff.contains hash then c.tail else c) := by
  rcases disconnectBlock_ok.mp hd with ⟨hnone,-,rfl⟩ |
    ⟨d,header,n,t,hdiff,htip,hhd,-,-,hundo,-,rfl⟩
  · rw [(FinMap.contains_false_iff _ _).mpr hnone]
    exact hs
  · rw [(FinMap.contains_iff _ _).mpr ⟨d,hdiff⟩,if_pos rfl]
    cases c with
    | nil =>
      rw [hguard hs.tip] at hdiff
      cases hdiff
    | cons b c =>
      obtain rfl := htip b.blockHash hs.tip
      obtain ⟨hh,hparent,hlinked⟩ := hs.linked
      obtain rfl : b.header = header := Option.some.inj (hh.symm.trans hhd)
      rw [hparent,tipHash_of_parentHash]
      refine hs.undone hlinked hs.valid.2 (hs.parent_stored hdiff hhd hparent) ?_
      rcases hs.grown.undo with ⟨d',t',hd',ht',hgrown⟩ | hbase
      · obtain rfl := Option.some.inj (hdiff.symm.trans hd')
        obtain rfl := Except.ok.inj (hundo.symm.trans ht')
        exact hgrown
      · refine .base ⟨bare_undo_block hbase.bare (hs.diffs.proposals _ d hdiff) hundo,fun hns => ?_⟩
        exact absurd (hbase.empty hns).1 (by simp)

theorem staleDisconnect {hash : BlockHash} {events : List Event} (hs : Synced h V stale dbs [])
    (hstale : stale) (hd : disconnectBlock dbs hash = .ok (events,dbs')) (hvalid : c.Valid V)
    (hlinked : dbs.blockHashes.Linked c) (htip : dbs'.currentChainTip = c.tipHash) :
    Synced h V stale dbs' c := by
  rcases disconnectBlock_ok.mp hd with ⟨-,-,rfl⟩ | ⟨d,header,n,t,hdiff,-,hhd,-,-,hundo,-,rfl⟩
  · cases c with
    | nil => exact hs
    | cons b c =>
      rw [hs.tip] at htip
      cases htip
  · have hbase : Base stale (Fresh V) [] dbs.toConsensusDbs := by
      cases hs.grown with
      | base hb => exact hb
    have hparent : header.prevBlockhash = c.parentHash := by
      unfold parentHash
      rw [← htip]
      by_cases hz : header.prevBlockhash = allZeros <;> simp [hz]
    have hsync := hs.undone (t := t) hlinked hvalid (hs.parent_stored hdiff hhd hparent)
      (.base ⟨bare_undo_block hbase.bare (hs.diffs.proposals _ d hdiff) hundo,
        fun hns => absurd hstale hns⟩)
    rw [hparent,tipHash_of_parentHash]
    exact hsync

end Synced

theorem Reach.synced {h : BlockHandler} {V : Chain → Block → Prop} {stale : Prop} {dbs : Dbs}
    {c : Chain} (hr : Reach h V stale dbs c) : Synced h V stale dbs c := by
  induction hr with
  | empty => exact .empty
  | header _ hf ih => exact ih.header hf
  | mempool _ ih => exact ih.mempool
  | connect _ hv hh hc ih => exact ih.connect hv hh hc
  | disconnect _ hg hd ih => exact ih.disconnect hg hd
  | staleDisconnect ha _ _ hd hv hl ht ih => exact ih.staleDisconnect ha hd hv hl ht

end Bip300301Enforcer
