import Bip300301Enforcer.Rejections
import Bip300301Enforcer.ChainDiff

/-! Validators agree. What one of them holds and how it judges the next block depend on its
active chain, not on the way to it: the branches that it left, the headers and the mempool. -/
namespace Bip300301Enforcer
open Lib Chain BlockHandler BlockHashDbs

section Agreement

variable [Bitcoin] {h : BlockHandler} {V : Chain → Block → Prop} {dbs dbs' : Dbs} {c : Chain}
  {b : Block}

/-- What connecting a block does, as far as other blocks depend on it: the event, the tables
and the tip, or the error. -/
def BlockHandler.judge (h : BlockHandler) (dbs : Dbs) (b : Block) :
    Res (Event × ConsensusDbs × Option BlockHash) :=
  (h.connectBlock dbs b).map (fun r => (r.1,r.2.toConsensusDbs,r.2.currentChainTip))

/-- What connecting a block at a height does, given the tables and the diff below it. -/
def BlockHandler.judgeAt (h : BlockHandler) (t : ConsensusDbs) (height : ℕ)
    (prevDiff : Option Diff.Block) (b : Block) : Res (Event × ConsensusDbs × Option BlockHash) :=
  match b.txdata with
  | [] => .error .noCoinbase
  | coinbase::txs => do
    let res ← h.processBlock t height b.header.prevBlockhash b.blockHash prevDiff coinbase txs
    match res.unconsolidatedCtips.byOutpoint.toList with
    | (outpoint,sidechain,_)::_ => .error (.unconsolidatedCtip outpoint sidechain)
    | [] => .ok (.connectBlock (headerInfoOf b height) res.blockInfo,res.dbs,some b.blockHash)

/-- A block on top of the tip is judged by the tables of the chain and the diff of the tip. -/
theorem Synced.judge_eq (hs : Synced h V False dbs c)
    (hh : dbs.blockHashes.header.get? b.blockHash = some b.header)
    (hparent : b.header.prevBlockhash = c.parentHash) :
    h.judge dbs b = h.judgeAt dbs.toConsensusDbs c.length
      (dbs.blockHashes.diff.get? c.parentHash) b := by
  have hl : dbs.blockHashes.Linked (b::c) := ⟨hh,hparent,hs.linked⟩
  have htip : ensureTipIsParent dbs b.header.prevBlockhash = .ok () :=
    ensureTipIsParent_ok.mpr (hparent.trans hs.parent_eq.symm)
  have hheight : Database.get dbs.blockHashes.height .height b.blockHash = .ok c.length :=
    (Database.get_ok _ _ _ _).mpr (linked_height hs.headers hl)
  have hne : b.header.prevBlockhash ≠ b.blockHash := by
    rw [hparent]
    cases c with
    | nil => exact b.header.blockHash_ne.symm
    | cons b' c =>
      intro he
      exact linked_hash_ne hs.headers hl (by simp [← he,parentHash_cons])
  unfold judge judgeAt connectBlock partialConnectBlock
  simp only [htip,hheight,Fallible.ok_bind]
  cases b.txdata with
  | nil => rfl
  | cons coinbase txs =>
    rw [← hparent]
    simp only
    cases hp : h.processBlock dbs.toConsensusDbs c.length b.header.prevBlockhash b.blockHash
      (dbs.blockHashes.diff.get? b.header.prevBlockhash) coinbase txs with
    | error err => rfl
    | ok res =>
      simp only [Fallible.ok_bind,pure_bind,finalizeConnectBlock]
      cases hu : res.unconsolidatedCtips.byOutpoint.toList with
      | cons e rest => rfl
      | nil =>
        obtain ⟨⟨event,dbs₁⟩,hr⟩ : ∃ r, recordBlock { dbs with toConsensusDbs := res.dbs }
            (headerInfoOf b c.length) res.blockInfo res.diff = .ok r :=
          hs.recordBlock_succeeds rfl hh hparent
        obtain ⟨hd,w,hhd,-,rfl,tip,rfl,htip⟩ := recordBlock_ok hr
        obtain rfl := Option.some.inj (hh.symm.trans hhd)
        have htip : tip = some b.blockHash := by
          refine htip ?_ hne ?_
          · rw [hs.tip,hparent]
            cases c with
            | nil => exact .inl ⟨rfl,rfl⟩
            | cons b' c => exact .inr rfl
          · intro hsome
            rw [hparent]
            exact fun hz => hsome (by rw [hs.tip,parentHash_eq_zeros.mp hz]; rfl)
        subst htip
        exact congrArg (Except.map (fun r => (r.1,r.2.toConsensusDbs,r.2.currentChainTip))) hr

theorem Reach.agree (hf : Fresh V) (hr : Reach h V False dbs c) (hr' : Reach h V False dbs' c) :
    dbs.toConsensusDbs = dbs'.toConsensusDbs ∧
      dbs.blockHashes.diff.get? c.parentHash = dbs'.blockHashes.diff.get? c.parentHash := by
  have hzero {dbs : Dbs} (hr : Reach h V False dbs c) :
      dbs.blockHashes.diff.get? allZeros = none := by
    by_contra hsome
    obtain ⟨d,hd⟩ := Option.ne_none_iff_exists'.mp hsome
    obtain ⟨hd',hhd⟩ := hr.synced.diffs.header _ d hd
    exact hd'.blockHash_ne (hr.synced.headers.hash _ hd' hhd)
  obtain ⟨ht,hD⟩ := Grown.unique hf ((hzero hr).trans (hzero hr').symm) hr.synced.grown
    hr'.synced.grown
  refine ⟨ht,?_⟩
  cases c with
  | nil => exact (hzero hr).trans (hzero hr').symm
  | cons b c => exact hD b (List.mem_cons_self ..)

/-- Two validators with the same active chain hold the same consensus tables and judge every
block on top of it in the same way, with the same event and tables or the same error. -/
theorem validators_agree (hf : Fresh V) (hr : Reach h V False dbs c) (hr' : Reach h V False dbs' c)
    (hh : dbs.blockHashes.header.get? b.blockHash = some b.header)
    (hh' : dbs'.blockHashes.header.get? b.blockHash = some b.header)
    (hparent : b.header.prevBlockhash = c.parentHash) :
    dbs.toConsensusDbs = dbs'.toConsensusDbs ∧ dbs.currentChainTip = dbs'.currentChainTip ∧
      h.judge dbs b = h.judge dbs' b := by
  obtain ⟨ht,hd⟩ := hr.agree hf hr'
  refine ⟨ht,hr.synced.tip.trans hr'.synced.tip.symm,?_⟩
  rw [hr.synced.judge_eq hh hparent,hr'.synced.judge_eq hh' hparent,ht,hd]

end Agreement

section Sample

open Sample ForkSample

namespace AgreementSample

def next : Block := blockOn target 20 [m1Script 2 [5]] []

def reorgCalls : List Call :=
  Call.connectAll (genesis::oldBranch)++
    newBranch.zipIdx.map (fun e => .header e.1.header (e.2+1))++
    oldBranch.reverse.map (fun b => .disconnect b.blockHash)++newBranch.map .connect++
    [.header next.header 4]

def moved : Dbs × Chain := Call.runAll handler FreshTxids reorgCalls

def straight : Dbs × Chain :=
  Call.runAll handler FreshTxids (Call.connectAll (genesis::newBranch)++[.header next.header 4])

theorem reach_moved : Reach handler FreshTxids False moved.1 moved.2 :=
  Call.reach_runAll _ (by decide)

theorem reach_straight : Reach handler FreshTxids False straight.1 straight.2 :=
  Call.reach_runAll _ (by decide)

end AgreementSample

open AgreementSample

theorem validators_agree_sample :
    moved.1.toConsensusDbs = straight.1.toConsensusDbs ∧
      handler.judge moved.1 next = handler.judge straight.1 next ∧
      (handler.judge straight.1 next).isOk = true := by
  have hc : moved.2 = straight.2 := by decide +kernel
  have hr := reach_moved
  rw [hc] at hr
  have hagree := validators_agree (b := next) (fun _ _ hv => hv) hr
    reach_straight (by decide +kernel) (by decide +kernel) (by decide +kernel)
  exact ⟨hagree.1,hagree.2.2,by decide +kernel⟩

end Sample

end Bip300301Enforcer
