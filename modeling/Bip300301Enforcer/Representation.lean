import Bip300301Enforcer.Conservation
import Bip300301Enforcer.Rejections

/-! The representation invariant of the validator's tables, and the readers that
rely on it. -/
namespace Bip300301Enforcer
open Lib Chain BlockHandler ActiveSidechainDbs
open Fallible (FailsOnly)

/-- What `GetCtip` reports about a slot that has a ctip. -/
structure CtipResponse where
  txid : Txid
  vout : ℕ
  value : ℕ
  sequenceNumber : ℕ
deriving DecidableEq

namespace Dbs

/-- All active sidechains. Each of them must have an activation height. -/
def getActiveSidechains (dbs : Dbs) : Res (List Sidechain) :=
  dbs.activeSidechains.sidechain.toList.mapM (fun e => do
    Fallible.ensure e.2.status.activationHeight.isSome (.panic .activationHeight)
    return e.2)

def tryGetCtip (dbs : Dbs) (s : SidechainNumber) : Option Ctip := dbs.activeSidechains.ctip.get? s

/-- Sequence numbers begin at zero, so the current one is one less than the number
of treasury outputs. -/
def getCtipSequenceNumber (dbs : Dbs) (s : SidechainNumber) : Option ℕ :=
  (dbs.activeSidechains.treasuryUtxoCount.get? s).map PNat.natPred

def getCtip (dbs : Dbs) (s : SidechainNumber) : Res (Option CtipResponse) :=
  match dbs.tryGetCtip s with
  | some ctip => do
    let sequenceNumber ← Fallible.require (dbs.getCtipSequenceNumber s) (.panic .ctipSequenceNumber)
    return some ⟨ctip.outpoint.txid,ctip.outpoint.vout,ctip.value,sequenceNumber⟩
  | none => .ok none

end Dbs

/-- The representation invariant of the consensus tables. -/
structure ConsensusDbs.Represents [Bitcoin] (t : ConsensusDbs) : Prop where
  pending : ∀ s, t.activeSidechains.pendingM6ids.contains s = t.activeSidechains.sidechain.contains s
  counted : ∀ s, t.activeSidechains.treasuryUtxoCount.contains s = t.activeSidechains.ctip.contains s
  ctipActive : ∀ s, t.activeSidechains.ctip.contains s = true →
    t.activeSidechains.sidechain.contains s = true
  entries : ∀ s n, t.activeSidechains.slotSequenceToTreasuryUtxo.contains (s,n) = true ↔
    n < t.activeSidechains.count s
  slot : ∀ s n u, t.activeSidechains.slotSequenceToTreasuryUtxo.get? (s,n) = some u →
    u.sidechainNumber = s
  first : ∀ s u, t.activeSidechains.slotSequenceToTreasuryUtxo.get? (s,0) = some u →
    u.previousTotalValue = 0
  next : ∀ s n u u', t.activeSidechains.slotSequenceToTreasuryUtxo.get? (s,n) = some u →
    t.activeSidechains.slotSequenceToTreasuryUtxo.get? (s,n+1) = some u' →
      u'.previousTotalValue = u.totalValue
  ctip : ∀ s ctip, t.activeSidechains.ctip.get? s = some ctip ↔ ∃ n u,
    t.activeSidechains.count s = n+1 ∧
      t.activeSidechains.slotSequenceToTreasuryUtxo.get? (s,n) = some u ∧
      ctip = ⟨u.outpoint,u.totalValue⟩
  /-- The index has an entry for every treasury output, and no others. -/
  index : ∀ o s v n, t.activeSidechains.ctipOutpointToValueSeq.get? o = some (s,v,n) ↔
    ∃ u, t.activeSidechains.slotSequenceToTreasuryUtxo.get? (s,n) = some u ∧ u.outpoint = o ∧
      u.totalValue = v
  sidechains : ∀ s sc, t.activeSidechains.sidechain.get? s = some sc →
    sc.proposal.sidechainNumber = s ∧ sc.status.activationHeight.isSome = true
  proposals : ∀ id sc, t.proposalIdToSidechain.get? id = some sc →
    sc.proposal.computeId = id ∧ sc.status.activationHeight = none

/-- A transaction that Bitcoin's rules allow on top of a chain, perhaps after others
that are not in a block yet: it spends no output twice, and what it spends of the
chain's outputs is unspent. -/
structure Spendable [Bitcoin] (c : Chain) (tx : Transaction) : Prop where
  nodup : tx.spent.Nodup
  unspent : ∀ o ∈ tx.spent, o.txid ∈ c.allTxids →
    ∃ L out, c.utxos = some L ∧ L.get? o = some out

namespace ActiveSidechainDbs

variable {dbs : ActiveSidechainDbs} {s : SidechainNumber}

theorem count_pos_iff : 0 < dbs.count s ↔ dbs.treasuryUtxoCount.contains s = true := by
  unfold count
  cases hc : dbs.treasuryUtxoCount.get? s with
  | none => simp [FinMap.contains,hc]
  | some n => simp [FinMap.contains,hc]

theorem deleteCtip_succeeds (h : dbs.Tables) (hc : dbs.ctip.contains s = true) :
    ∃ dbs', dbs.deleteCtip s = .ok dbs' := by
  obtain ⟨ctip,hctip⟩ := (FinMap.contains_iff _ _).mp hc
  obtain ⟨n,u,hn,-⟩ := (h.history s).last hctip
  obtain ⟨k,hk⟩ : ∃ k, dbs.treasuryUtxoCount.get? s = some k :=
    (FinMap.contains_iff _ _).mp (count_pos_iff.mp (by omega))
  have hcount : k.natPred+1 = dbs.count s := by
    simp only [count,hk,PNat.natPred_add_one]
  unfold deleteCtip
  simp only [Database.get,hctip,hk,Fallible.require_some,Fallible.ok_bind]
  cases hpred : k.natPred with
  | zero => exact ⟨_,rfl⟩
  | succ prev =>
    obtain ⟨u',hu'⟩ := (h.history s).get?_some (show prev < dbs.count s by omega)
    have hne : (s,prev+1) ≠ (s,prev) := by simp
    have hget : (dbs.slotSequenceToTreasuryUtxo.erase (s,prev+1)).get? (s,prev) = some u' := by
      rw [FinMap.get?_erase,if_neg hne,hu']
    simp only [hget,Fallible.require_some,Fallible.ok_bind]
    exact ⟨_,rfl⟩

end ActiveSidechainDbs

section Representation

variable [Bitcoin] {h : BlockHandler} {V : Chain → Block → Prop} {stale : Prop}
  {D : BlockHash → Option Diff.Block} {c : Chain} {t : ConsensusDbs} {dbs : Dbs}

theorem ConsensusDbs.Wf.represents (hw : t.Wf) (hi : t.activeSidechains.Indexed) : t.Represents := by
  have hcounted : ∀ s, t.activeSidechains.treasuryUtxoCount.contains s =
      t.activeSidechains.ctip.contains s := by
    intro s
    have hh := hw.tables.history s
    rw [Bool.eq_iff_iff,← count_pos_iff]
    constructor
    · intro hpos
      obtain ⟨n,hn⟩ := Nat.exists_eq_succ_of_ne_zero (Nat.pos_iff_ne_zero.mp hpos)
      obtain ⟨u,hu⟩ := hh.get?_some (show n < t.activeSidechains.count s by omega)
      exact (FinMap.contains_iff _ _).mpr ⟨_,hh.ctip n u hn hu⟩
    · intro hc
      by_contra hzero
      obtain ⟨ctip,hctip⟩ := (FinMap.contains_iff _ _).mp hc
      rw [hh.noCtip (by omega)] at hctip
      cases hctip
  refine ⟨hw.tables.pending,hcounted,hw.tables.ctipActive,fun s => (hw.tables.history s).entries,
    fun s => (hw.tables.history s).slot,fun s => (hw.tables.history s).first,
    fun s => (hw.tables.history s).next,?_,hi,hw.sidechains,hw.proposals⟩
  intro s ctip
  constructor
  · intro hctip
    obtain ⟨n,u,hn,hu,ho,hv⟩ := (hw.tables.history s).last hctip
    exact ⟨n,u,hn,hu,by rw [ho,hv]⟩
  · rintro ⟨n,u,hn,hu,rfl⟩
    exact (hw.tables.history s).ctip n u hn hu

omit [Bitcoin] in
theorem Dbs.getActiveSidechains_eq {active : List Sidechain} (ha : dbs.getActiveSidechains = .ok active) :
    active = dbs.activeSidechains.sidechain.toList.map Prod.snd := by
  refine Fallible.mapM_eq_map ?_ ha
  rintro ⟨s,sc⟩ a ha
  obtain ⟨-,-,ha⟩ := Fallible.bind_ok.mp ha
  exact ((Fallible.pure_ok _ _).mp ha).symm

theorem ConsensusDbs.Represents.getActiveSidechains_ok (hr : dbs.toConsensusDbs.Represents) :
    ∃ l, dbs.getActiveSidechains = .ok l := by
  refine Fallible.mapM_succeeds ?_
  rintro ⟨s,sc⟩ hmem
  have hact := (hr.sidechains s sc (FinMap.mem_toList.mp hmem)).2
  exact ⟨sc,by simp only [hact]; rfl⟩

theorem ConsensusDbs.Represents.getCtip_ok (hr : dbs.toConsensusDbs.Represents)
    (s : SidechainNumber) : ∃ r, dbs.getCtip s = .ok r := by
  unfold Dbs.getCtip
  cases hc : dbs.tryGetCtip s with
  | none => exact ⟨none,rfl⟩
  | some ctip =>
    have hcon : dbs.activeSidechains.treasuryUtxoCount.contains s = true := by
      rw [hr.counted s]
      exact (FinMap.contains_iff _ _).mpr ⟨ctip,hc⟩
    obtain ⟨n,hn⟩ := (FinMap.contains_iff _ _).mp hcon
    have hseq : dbs.getCtipSequenceNumber s = some n.natPred := by
      simp only [Dbs.getCtipSequenceNumber,hn,Option.map_some]
    exact ⟨_,Fallible.bind_ok.mpr ⟨_,by rw [hseq]; rfl,rfl⟩⟩

theorem ChainBacked.fillCtips_failsOnly (hb : ChainBacked h c t) {tx : Transaction}
    (hs : Spendable c tx) (h' : BlockHandler) (u : UnconsolidatedCtips) :
    FailsOnly Error.Rejects (h'.fillCtips t.activeSidechains u tx) := by
  obtain ⟨L,hL,hb⟩ := hb
  have hone : ∀ s, (t.activeSidechains.consolidatedInputs s tx.input).length ≤ 1 := by
    refine hb.single_unspent hs.nodup ?_
    intro o ho hidx
    obtain ⟨⟨s,v,n⟩,hidx⟩ := (FinMap.contains_iff _ _).mp hidx
    obtain ⟨utxo,hu,rfl,-⟩ := (hb.indexed _ _ _ _).mp hidx
    obtain ⟨L',out,hL',hout⟩ := hs.unspent _ ho (hb.le _ (hb.madeBy _ _ _ hu))
    obtain rfl := Option.some.inj (hL.symm.trans hL')
    exact ⟨out,hout⟩
  intro e he
  rcases Bip300301Enforcer.fillCtips_failsOnly (A := True) (fun _ => hone) e he with hr | ⟨hn,-⟩
  · exact hr
  · exact absurd trivial hn

/-- In every state that can be reached the tables are linked, and the assertions and
unwraps of their readers hold. In guarded runs the lookups of a disconnect succeed. -/
theorem tables_represent (params : NetworkParams) (hr : Reach (.new params) UtxoValid stale dbs c) :
    dbs.toConsensusDbs.Represents ∧
    (∃ l, dbs.getActiveSidechains = .ok l) ∧ (∀ s, ∃ r, dbs.getCtip s = .ok r) ∧
    (∀ s, dbs.activeSidechains.ctip.contains s = true →
      ∃ a, dbs.activeSidechains.deleteCtip s = .ok a) ∧
    (∀ (h : BlockHandler) (u : UnconsolidatedCtips) (tx : Transaction), Spendable c tx →
      FailsOnly Error.Rejects (h.fillCtips dbs.activeSidechains u tx)) ∧
    (∀ b coinbase done tx rest t₂ accepted events d acc, UtxoValid c b →
      b.txdata = coinbase::(done++tx::rest) → params.bip300ActivationHeight ≤ c.length →
      (BlockHandler.new params).connectCoinbase dbs.toConsensusDbs c.length b.header.prevBlockhash
        (dbs.blockHashes.diff.get? b.header.prevBlockhash) coinbase = .ok (t₂,accepted,events,d) →
      done.foldlM ((BlockHandler.new params).connectTx accepted b.header.prevBlockhash b.blockHash)
        ⟨t₂.activeSidechains,.default,[],events,[]⟩ = .ok acc →
      FailsOnly Error.Rejects
        ((BlockHandler.new params).fillCtips acc.dbs acc.unconsolidatedCtips tx)) ∧
    (¬ stale → ∀ hash, (dbs.currentChainTip = none → dbs.blockHashes.diff.get? hash = none) →
      FailsOnly (fun e => ∃ tip, dbs.currentChainTip = some tip ∧ tip ≠ hash ∧ e = .tipHash hash tip)
        (disconnectBlock dbs hash)) := by
  have hs := hr.synced
  obtain ⟨hw,hi⟩ := hs.grown.wf
  have hrep := hw.represents (hi fresh_utxoValid).1
  have hback := hs.grown.backed hs.valid
  refine ⟨hrep,hrep.getActiveSidechains_ok,hrep.getCtip_ok,
    fun s hc => deleteCtip_succeeds hw.tables hc,fun h u tx htx => hback.fillCtips_failsOnly htx h u,
    ?_,?_⟩
  · intro b coinbase done tx rest t₂ accepted events d acc hv htx hle hcon hdone
    obtain ⟨L,L',hb,hL⟩ := prefix_backed hv htx hw hback hle hcon rfl hdone
    intro e he
    rcases Bip300301Enforcer.fillCtips_failsOnly (A := True)
      (fun _ => hb.single_consolidated hL) e he with hr | ⟨hn,-⟩
    · exact hr
    · exact absurd trivial hn
  · intro hstale
    rw [eq_false hstale] at hs
    exact hs.disconnectBlock_failsOnly

end Representation

section Sample

open Sample TreasurySample

namespace RepresentationSample

def deposited : List Block := blocksOn allZeros 0 (contents.take 9++[([],[])])

/-- All blocks are connected and disconnected, and then the last one is
disconnected once more. -/
def staleCalls : List Call :=
  Call.connectAll deposited++deposited.reverse.map (fun b => .disconnect b.blockHash)++
    deposited.reverse.head?.toList.map (fun b => .staleDisconnect b.blockHash deposited.reverse.tail)

end RepresentationSample

open RepresentationSample

theorem tables_represent_sample :
    run.1.toConsensusDbs.Represents ∧ (∃ r, run.1.getCtip 0 = .ok (some r)) ∧
      run.1.activeSidechains.count 0 = 1 := by
  have hrep := (tables_represent handler.params reach_run).1
  obtain ⟨r,hr⟩ := (tables_represent handler.params reach_run).2.2.1 0
  have hsome : run.1.getCtip 0 ≠ .ok none := by decide +kernel
  cases r with
  | none => exact absurd hr hsome
  | some r => exact ⟨hrep,⟨r,hr⟩,by decide +kernel⟩

/-- After a disconnect without a tip the block that made a deposit is the tip again,
and disconnecting it does not find the ctip. -/
theorem stale_disconnect_misses_ctip :
    ∃ dbs b c, Reach handler UtxoValid True dbs (b::c) ∧ dbs.currentChainTip = some b.blockHash ∧
      disconnectBlock dbs b.blockHash = .error (.db .ctip) := by
  have hr : Reach handler UtxoValid True _ _ := Call.reach_runAll staleCalls (fun _ _ _ => trivial)
  have hc : (Call.runAll handler UtxoValid staleCalls).2 = deposited.reverse.tail := by
    decide +kernel
  obtain ⟨b,c,hbc⟩ : ∃ b c, deposited.reverse.tail = b::c := ⟨_,_,rfl⟩
  have htip : (Call.runAll handler UtxoValid staleCalls).1.currentChainTip =
      deposited.reverse.tail.head?.map Block.blockHash := by decide +kernel
  have herr : ∀ b ∈ deposited.reverse.tail.head?,
      (disconnectBlock (Call.runAll handler UtxoValid staleCalls).1 b.blockHash) =
        .error (.db .ctip) := by decide +kernel
  rw [hc,hbc] at hr
  rw [hbc] at htip herr
  exact ⟨_,b,c,hr,htip,herr b rfl⟩

end Sample

end Bip300301Enforcer
