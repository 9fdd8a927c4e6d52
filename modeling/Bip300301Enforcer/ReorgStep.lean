import Bip300301Enforcer.Ancestors
import Bip300301Enforcer.HeaderOnly
import Bip300301Enforcer.Reorg

/-! How a sync of blocks starts: blocks that are not on the way to the target tip are
disconnected, and those that are missing are collected. -/
namespace Bip300301Enforcer
open Lib Chain BlockHandler Walk

/-- What the first part of a sync leaves behind: the missing blocks, newest first, with
the height of the target tip, the database, and the events that were broadcast. -/
structure SyncStart where
  result : Except SyncError (List BlockHash × ℕ)
  dbs : Dbs
  events : List Event

namespace BlockHandler

variable [Bitcoin]

def currentEnforcerTip (dbs : Dbs) : BlockHash := dbs.currentChainTip.getD allZeros

/-- Disconnect the tip until it is the given ancestor. The loop may run out of `fuel`. -/
def disconnectTo (lastCommonAncestor : BlockHash) : ℕ → Dbs → Option (Res (List Event × Dbs))
  | 0, _ => none
  | fuel+1, dbs =>
    if currentEnforcerTip dbs = lastCommonAncestor then some (.ok ([],dbs))
    else
      match disconnectBlock dbs (currentEnforcerTip dbs) with
      | .error err => some (.error err)
      | .ok (events,dbs) =>
        (disconnectTo lastCommonAncestor fuel dbs).map (fun r => r.map (fun r => (events++r.1,r.2)))

def missingBlocks (dbs : Dbs) (mainTip : BlockHash) : List BlockHash :=
  (dbs.blockHashes.ancestorHeaders mainTip).takeWhile (fun k => k ≠ currentEnforcerTip dbs)

/-- The first part of `sync_blocks`. Nothing is committed when the loop fails. -/
def startSync (fuel : ℕ) (dbs : Dbs) (mainTip : BlockHash) : Option SyncStart :=
  match dbs.blockHashes.lastCommonAncestor (currentEnforcerTip dbs) mainTip with
  | .error err => some ⟨.error (.block err),dbs,[]⟩
  | .ok lastCommonAncestor =>
    (disconnectTo lastCommonAncestor fuel dbs).map (fun
      | .error err => ⟨.error (.block err),dbs,[]⟩
      | .ok (events,dbs) =>
        match Database.get dbs.blockHashes.height .height mainTip with
        | .error err => ⟨.error (.block err),dbs,events⟩
        | .ok height => ⟨.ok (missingBlocks dbs mainTip,height),dbs,events⟩)

end BlockHandler

section ReorgStep

variable [Bitcoin] {h : BlockHandler} {V : Chain → Block → Prop} {dbs dbs' : Dbs} {c : Chain}
  {b : Block}

/-- The tip can be disconnected, which leads to the chain below it. -/
theorem Reach.disconnect_tip (hr : Reach h V False dbs (b::c)) :
    ∃ dbs', disconnectBlock dbs b.blockHash = .ok ([.disconnectBlock b.blockHash],dbs') ∧
      Reach h V False dbs' c ∧ dbs'.blockHashes = dbs.blockHashes := by
  have hs := hr.synced
  have htip : dbs.currentChainTip = some b.blockHash := hs.tip
  have hguard : dbs.currentChainTip = none → dbs.blockHashes.diff.get? b.blockHash = none := by
    intro hnone
    rw [htip] at hnone
    cases hnone
  obtain ⟨d,hd⟩ := hs.stored (by simp)
  rw [parentHash_cons] at hd
  have hfails := hs.disconnectBlock_failsOnly b.blockHash hguard
  cases hdis : disconnectBlock dbs b.blockHash with
  | error e =>
    obtain ⟨tip,ht,hne,-⟩ := hfails e hdis
    exact absurd (Option.some.inj (ht.symm.trans htip)) hne
  | ok r =>
    obtain ⟨events,dbs'⟩ := r
    have hreach := hr.disconnect hguard hdis
    rw [(FinMap.contains_iff _ _).mpr ⟨d,hd⟩,if_pos rfl] at hreach
    rcases disconnectBlock_ok.mp hdis with ⟨hnone,-⟩ | ⟨d',hd',n,t,-,-,-,-,-,-,rfl,rfl⟩
    · rw [hnone] at hd
      cases hd
    · exact ⟨_,rfl,hreach,rfl⟩

theorem Synced.currentEnforcerTip_eq (hs : Synced h V False dbs c) :
    currentEnforcerTip dbs = c.parentHash := hs.parent_eq

/-- The loop disconnects the blocks above an ancestor, the newest first. -/
theorem disconnectTo_eq {above below : Chain} (hr : Reach h V False dbs (above++below))
    (hne : below.parentHash ∉ above.map Block.blockHash) {fuel : ℕ} (hfuel : above.length < fuel) :
    ∃ dbs', disconnectTo below.parentHash fuel dbs =
        some (.ok (above.map (fun b => .disconnectBlock b.blockHash),dbs')) ∧
      Reach h V False dbs' below ∧ dbs'.blockHashes = dbs.blockHashes := by
  induction above generalizing dbs fuel with
  | nil =>
    obtain ⟨fuel,rfl⟩ := Nat.exists_eq_succ_of_ne_zero (Nat.pos_iff_ne_zero.mp hfuel)
    refine ⟨dbs,?_,hr,rfl⟩
    have htip : currentEnforcerTip dbs = below.parentHash := hr.synced.currentEnforcerTip_eq
    simp only [disconnectTo,htip,if_true]
    rfl
  | cons b above ih =>
    obtain ⟨fuel,rfl⟩ := Nat.exists_eq_succ_of_ne_zero (Nat.ne_of_gt (Nat.lt_of_le_of_lt (Nat.zero_le _) hfuel))
    have htip : currentEnforcerTip dbs = b.blockHash := hr.synced.currentEnforcerTip_eq
    have hstep : b.blockHash ≠ below.parentHash := by
      intro he
      exact hne (by rw [← he]; exact List.mem_map_of_mem (List.mem_cons_self ..))
    obtain ⟨dbs₁,hdis,hr₁,hbh₁⟩ := hr.disconnect_tip
    obtain ⟨dbs₂,hloop,hr₂,hbh₂⟩ := ih hr₁ (fun hm => hne (List.mem_cons_of_mem _ hm))
      (by simpa using hfuel)
    refine ⟨dbs₂,?_,hr₂,hbh₂.trans hbh₁⟩
    simp only [disconnectTo,htip,if_neg hstep,hdis,hloop]
    rfl

theorem disconnectTo_mono {lca : BlockHash} {n m : ℕ} {r : Res (List Event × Dbs)}
    (hr : disconnectTo lca n dbs = some r) (hnm : n ≤ m) : disconnectTo lca m dbs = some r := by
  induction n generalizing dbs m r with
  | zero => cases hr
  | succ n ih =>
    obtain ⟨m,rfl⟩ := Nat.exists_eq_succ_of_ne_zero (Nat.ne_of_gt (Nat.lt_of_lt_of_le n.succ_pos hnm))
    unfold disconnectTo at hr ⊢
    split
    case isTrue htip => rwa [if_pos htip] at hr
    case isFalse htip =>
      rw [if_neg htip] at hr
      split at hr
      · exact hr
      · obtain ⟨r',hr',rfl⟩ := Option.map_eq_some_iff.mp hr
        rw [ih hr' (Nat.le_of_succ_le_succ hnm)]
        rfl

/-- A sync to a stored tip disconnects the blocks of the active chain that are not on the
way to it, and finds the rest of the way. -/
theorem Reach.startSync_eq {mainTip : BlockHash} {hd : Header} (hr : Reach h V False dbs c)
    (hclosed : dbs.blockHashes.AncestorClosed)
    (hmain : dbs.blockHashes.header.get? mainTip = some hd) :
    ∃ above below missing n dbs', c = above++below ∧
      (∀ fuel, above.length < fuel → startSync fuel dbs mainTip =
        some ⟨.ok (missing,n),dbs',above.map (fun b => .disconnectBlock b.blockHash)⟩) ∧
      dbs'.blockHashes = dbs.blockHashes ∧
      Path dbs.blockHashes.parent? mainTip (missing++below.map Block.blockHash) allZeros ∧
      (∀ b ∈ above, b.blockHash ∉ missing++below.map Block.blockHash) ∧
      Reach h V False dbs' below := by
  have hs := hr.synced
  have hh := hs.headers
  obtain ⟨l,hl⟩ := hh.exists_path hclosed hmain
  have hc := BlockHashDbs.linked_path hs.linked
  obtain ⟨p,missing,t,hp,hp',hne,hne'⟩ := exists_meet hh.ranked hh.parent?_zeros hc hl
  obtain ⟨above,below,rfl,hp₁,ht₁⟩ := List.map_eq_append_iff.mp hp
  have hlca := hh.lastCommonAncestor_eq hc hl hp hp' hne
  have hlca' : t.head?.getD allZeros = parentHash below := by
    rw [← ht₁]
    cases below <;> rfl
  have hnotin : parentHash below ∉ above.map Block.blockHash := by
    intro hm
    rw [hp₁] at hm
    have hmem := hne _ hm
    cases below with
    | nil =>
      rw [← hp₁] at hm
      obtain ⟨b,-,hb⟩ := List.mem_map.mp hm
      exact b.header.blockHash_ne hb
    | cons b below =>
      rw [hp',← ht₁] at hmem
      exact hmem (by simp [parentHash_cons])
  obtain ⟨dbs',hloop,hr',hbh'⟩ := disconnectTo_eq hr hnotin (Nat.lt_succ_self _)
  have hheight : ∃ n, dbs.blockHashes.height.get? mainTip = some n := by
    obtain ⟨n,hn,-⟩ := hh.height _ _ hmain
    exact ⟨n,hn⟩
  obtain ⟨n,hn⟩ := hheight
  have hs' := hr'.synced
  have hmissing : missingBlocks dbs' mainTip = missing := by
    have htip : currentEnforcerTip dbs' = parentHash below := hs'.currentEnforcerTip_eq
    unfold missingBlocks
    rw [hbh',hh.ancestorHeaders_eq hl,hp',htip,List.takeWhile_append_of_pos]
    · rw [← ht₁]
      cases below with
      | nil => simp
      | cons b below => simp [parentHash_cons]
    · intro k hk
      simp only [decide_eq_true_eq]
      rintro rfl
      cases below with
      | nil =>
        have hz : (parentHash ([] : Chain)) = allZeros := rfl
        obtain ⟨q,t',-,hpath⟩ := path_of_mem hl (x := allZeros) (by
          rw [hp']; exact List.mem_append_left _ hk)
        obtain ⟨-,b',hb',-⟩ := hpath
        rw [hh.parent?_zeros] at hb'
        cases hb'
      | cons b below =>
        refine hne' _ hk ?_
        rw [hp,← ht₁]
        simp [parentHash_cons]
  refine ⟨above,below,missing,n,dbs',rfl,?_,hbh',?_,?_,hr'⟩
  · intro fuel hfuel
    have htip : currentEnforcerTip dbs = parentHash (above++below) := hs.currentEnforcerTip_eq
    have hget : Database.get dbs'.blockHashes.height .height mainTip = .ok n := by
      rw [hbh']
      simp [Database.get,hn]
    unfold startSync
    rw [htip,hlca]
    simp only [hlca',disconnectTo_mono hloop (Nat.succ_le_of_lt hfuel),Option.map_some,hget,hmissing]
  · rw [ht₁,← hp']
    exact hl
  · intro b hb
    rw [ht₁,← hp']
    exact hne _ (by rw [← hp₁]; exact List.mem_map_of_mem hb)

/-- In every guarded run over a header tree, a sync to a stored tip ends its loop at the
last common ancestor: the blocks above it are disconnected, newest first, the tables are
those of the chain that ends there, and the missing blocks are the way from the target
tip down to it. -/
theorem startSync_reorg (mainTip : BlockHash) (hd : Header)
    (hr : Reach h FreshTxids False dbs c) (hclosed : dbs.blockHashes.AncestorClosed)
    (hmain : dbs.blockHashes.header.get? mainTip = some hd) :
    ∃ above below missing n dbs', c = above++below ∧
      (∀ fuel, above.length < fuel → startSync fuel dbs mainTip =
        some ⟨.ok (missing,n),dbs',above.map (fun b => .disconnectBlock b.blockHash)⟩) ∧
      dbs'.currentChainTip = below.tipHash ∧ dbs'.blockHashes = dbs.blockHashes ∧
      Path dbs.blockHashes.parent? mainTip (missing++below.map Block.blockHash) allZeros ∧
      (∀ b ∈ above, b.blockHash ∉ missing++below.map Block.blockHash) ∧
      Reach h FreshTxids False dbs' below ∧
      ∀ dbs₀, Reach h FreshTxids False dbs₀ below → dbs'.toConsensusDbs = dbs₀.toConsensusDbs := by
  obtain ⟨above,below,missing,n,dbs',hc,hstart,hbh,hpath,hnotin,hr'⟩ := hr.startSync_eq hclosed hmain
  refine ⟨above,below,missing,n,dbs',hc,hstart,hr'.synced.tip,hbh,hpath,hnotin,hr',?_⟩
  intro dbs₀ hr₀
  exact (hr₀.synced.unique hr'.synced (fun c b hb => hb)).1

end ReorgStep

section Sample

open Sample

namespace ForkSample

def handler : BlockHandler := .new (.new .bitcoin .regtest)

def genesis : Block := blockOn allZeros 0 [] []

def oldBranch : List Block := blocksOn genesis.blockHash 1 [([m1Script 0 [1,2,3]],[]),([],[])]

def newBranch : List Block :=
  blocksOn genesis.blockHash 10 [([],[]),([m1Script 1 [4]],[]),([],[])]

def run : Dbs × Chain :=
  Call.runAll handler FreshTxids (Call.connectAll (genesis::oldBranch)++
    newBranch.zipIdx.map (fun e => .header e.1.header (e.2+1)))

theorem reach_run : Reach handler FreshTxids False run.1 run.2 :=
  Call.reach_runAll _ (by decide)

theorem ancestorClosed_run : run.1.blockHashes.AncestorClosed := by decide +kernel

def target : BlockHash := (newBranch.getLastD genesis).blockHash

end ForkSample

open ForkSample

theorem startSync_reorg_sample :
    ∃ below dbs', (startSync 4 run.1 target).map SyncStart.dbs = some dbs' ∧
      Reach handler FreshTxids False dbs' below ∧ below.tipHash = some genesis.blockHash ∧
      (startSync 4 run.1 target).map SyncStart.events =
        some (oldBranch.reverse.map (fun b => .disconnectBlock b.blockHash)) ∧
      (startSync 4 run.1 target).map (fun s => s.result.toOption) =
        some (some (newBranch.reverse.map Block.blockHash,3)) := by
  obtain ⟨hd,hmain⟩ : ∃ hd, run.1.blockHashes.header.get? target = some hd :=
    (FinMap.contains_iff _ _).mp (by decide +kernel)
  obtain ⟨above,below,missing,n,dbs',hc,hstart,htip,-,-,-,hr,-⟩ :=
    startSync_reorg target hd reach_run ancestorClosed_run hmain
  have hlen : run.2.length = 3 := by decide +kernel
  have habove : above.length < 4 := by
    rw [hc,List.length_append] at hlen
    omega
  have hdbs : (startSync 4 run.1 target).map SyncStart.dbs = some dbs' := by
    rw [hstart 4 habove]
    rfl
  have hgenesis : (startSync 4 run.1 target).map (fun s => s.dbs.currentChainTip) =
      some (some genesis.blockHash) := by decide +kernel
  have htip' : dbs'.currentChainTip = some genesis.blockHash := by
    rw [hstart 4 habove] at hgenesis
    exact Option.some.inj hgenesis
  exact ⟨below,dbs',hdbs,hr,htip.symm.trans htip',by decide +kernel,by decide +kernel⟩

end Sample

end Bip300301Enforcer
