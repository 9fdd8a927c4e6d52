import Bip300301Enforcer.Runs

/-! Disconnecting a block undoes connecting it, and the consensus tables depend
on nothing but the active chain. -/
namespace Bip300301Enforcer
open Lib Chain

section Reorg

variable [Bitcoin] {h : BlockHandler} {V : Chain → Block → Prop} {stale : Prop} {dbs dbs' : Dbs}
  {c : Chain}

theorem Synced.disconnect_connect {b : Block} {event : Event} (hs : Synced h V stale dbs c)
    (hf : Fresh V) (hv : V c b) (hh : dbs.blockHashes.header.get? b.blockHash = some b.header)
    (hc : h.connectBlock dbs b = .ok (event,dbs')) :
    ∃ events dbs'', BlockHandler.disconnectBlock dbs' b.blockHash = .ok (events,dbs'') ∧
      dbs''.toConsensusDbs = dbs.toConsensusDbs ∧ dbs''.currentChainTip = dbs.currentChainTip := by
  have hs' := hs.connect hv hh hc
  obtain ⟨n,coinbase,txs,res,hp,he,hr⟩ := BlockHandler.connectBlock_ok.mp hc
  obtain ⟨rfl,ha⟩ := hs.accepted hh hp he
  obtain ⟨hd,w,hhd,-,-,tip,rfl,-⟩ := BlockHandler.recordBlock_ok hr
  obtain ⟨hw,hi⟩ := hs.grown.wf
  obtain ⟨-,hundoes,-⟩ := ha.spec hw hv hi
  obtain ⟨t,ht,hlike⟩ := hundoes res.dbs (.refl _ _)
  have hheight := BlockHashDbs.linked_height hs'.headers hs'.linked
  refine ⟨_,_,BlockHandler.disconnectBlock_ok.mpr (.inr ⟨res.diff,b.header,c.length,t,
    FinMap.get?_insert_self _ _ _,?_,hs'.linked.1,rfl,hheight,ht,rfl,rfl⟩),hlike.eq hf,?_⟩
  · intro tip' htip'
    rw [hs'.tip] at htip'
    exact (Option.some.inj htip').symm
  · simp only [ha.parent]
    rw [tipHash_of_parentHash,hs.tip]

theorem Synced.diff_zeros (hs : Synced h V stale dbs c) :
    dbs.blockHashes.diff.get? allZeros = none := by
  cases hg : dbs.blockHashes.diff.get? allZeros with
  | none => rfl
  | some e =>
    obtain ⟨hdr,hhdr⟩ := hs.diffs.header _ e hg
    exact absurd (hs.headers.hash _ _ hhdr) hdr.blockHash_ne

theorem Synced.unique {dbs₂ : Dbs} (hs : Synced h V False dbs c) (hs₂ : Synced h V False dbs₂ c)
    (hf : Fresh V) :
    dbs₂.toConsensusDbs = dbs.toConsensusDbs ∧ dbs₂.currentChainTip = dbs.currentChainTip := by
  refine ⟨(Grown.unique hf ?_ hs₂.grown hs.grown).1,by rw [hs.tip,hs₂.tip]⟩
  rw [hs.diff_zeros,hs₂.diff_zeros]

theorem Synced.tipDiff_unique {dbs₂ : Dbs} (hs : Synced h V False dbs c)
    (hs₂ : Synced h V False dbs₂ c) (hf : Fresh V) :
    dbs₂.blockHashes.diff.get? c.parentHash = dbs.blockHashes.diff.get? c.parentHash := by
  have hzero : dbs₂.blockHashes.diff.get? allZeros = dbs.blockHashes.diff.get? allZeros := by
    rw [hs.diff_zeros,hs₂.diff_zeros]
  cases c with
  | nil => exact hzero
  | cons b c => exact (Grown.unique hf hzero hs₂.grown hs.grown).2 b List.mem_cons_self

/-- In every run without a disconnect that finds no tip but a stored diff, a block
that is connected and at once disconnected leaves the consensus tables and the
tip as they were, and the tables depend on nothing but the active chain. -/
theorem disconnectBlock_connectBlock (hr : Reach h FreshTxids False dbs c) :
    (∀ b event dbs', FreshTxids c b → dbs.blockHashes.header.get? b.blockHash = some b.header →
      h.connectBlock dbs b = .ok (event,dbs') →
      ∃ events dbs'', BlockHandler.disconnectBlock dbs' b.blockHash = .ok (events,dbs'') ∧
        dbs''.toConsensusDbs = dbs.toConsensusDbs ∧
        dbs''.currentChainTip = dbs.currentChainTip) ∧
    ∀ dbs₂, Reach h FreshTxids False dbs₂ c →
      dbs₂.toConsensusDbs = dbs.toConsensusDbs ∧ dbs₂.currentChainTip = dbs.currentChainTip := by
  have hfresh : Fresh FreshTxids := fun c b hb => hb
  constructor
  · intro b event dbs' hv hh hc
    exact hr.synced.disconnect_connect hfresh hv hh hc
  · intro dbs₂ hr₂
    exact hr.synced.unique hr₂.synced hfresh

end Reorg

section Sample

open Sample

namespace ReorgSample

def handler : BlockHandler := .new (.new .bitcoin .regtest)

def genesis : Block := blockOn allZeros 0 [] []

def proposing : Block := blockOn genesis.blockHash 1 [m1Script 0 [1,2,3]] []

def idle : Block := blockOn proposing.blockHash 2 [] []

def calls : List Call :=
  [.header genesis.header 0,.header proposing.header 1,.header idle.header 2,.connect genesis,
    .connect proposing]

/-- All blocks are connected and disconnected, and then the last one is
disconnected once more. -/
def staleCalls : List Call :=
  calls++[.connect idle,.disconnect idle.blockHash,.disconnect proposing.blockHash,
    .disconnect genesis.blockHash,.staleDisconnect idle.blockHash [proposing,genesis]]

end ReorgSample

open ReorgSample

theorem disconnectBlock_connectBlock_sample :
    ∃ event dbs', handler.connectBlock (Call.runAll handler FreshTxids calls).1 idle =
      .ok (event,dbs') ∧ ∃ events dbs'', BlockHandler.disconnectBlock dbs' idle.blockHash =
        .ok (events,dbs'') ∧
      dbs''.toConsensusDbs = (Call.runAll handler FreshTxids calls).1.toConsensusDbs := by
  have hr : Reach handler FreshTxids False (Call.runAll handler FreshTxids calls).1
      (Call.runAll handler FreshTxids calls).2 := Call.reach_runAll calls (by decide)
  obtain ⟨r,hc⟩ : ∃ r, handler.connectBlock (Call.runAll handler FreshTxids calls).1 idle = .ok r :=
    Fallible.exists_of_isOk (by decide +kernel)
  obtain ⟨events,dbs'',hd,ht,-⟩ := (disconnectBlock_connectBlock hr).1 idle r.1 r.2
    (by decide +kernel) (by decide +kernel) hc
  exact ⟨r.1,r.2,hc,events,dbs'',hd,ht⟩

/-- Two runs of accepted calls that end in the same active chain, with different
tables: the last call of the second one disconnects a block without a tip. -/
theorem stale_disconnect_changes_tables :
    ∃ dbs dbs₂, Reach handler FreshTxids True dbs [proposing,genesis] ∧
      Reach handler FreshTxids True dbs₂ [proposing,genesis] ∧
      dbs₂.currentChainTip = dbs.currentChainTip ∧ dbs₂.toConsensusDbs ≠ dbs.toConsensusDbs := by
  have hr : Reach handler FreshTxids True _ _ := Call.reach_runAll calls (fun _ _ _ => trivial)
  have hr₂ : Reach handler FreshTxids True _ _ :=
    Call.reach_runAll staleCalls (fun _ _ _ => trivial)
  have hc : (Call.runAll handler FreshTxids calls).2 = [proposing,genesis] := by decide +kernel
  have hc₂ : (Call.runAll handler FreshTxids staleCalls).2 = [proposing,genesis] := by
    decide +kernel
  rw [hc] at hr
  rw [hc₂] at hr₂
  exact ⟨_,_,hr,hr₂,by decide +kernel,by decide +kernel⟩

end Sample

end Bip300301Enforcer
