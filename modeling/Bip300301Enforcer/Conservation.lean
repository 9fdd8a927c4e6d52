import Mathlib.Algebra.Ring.Int.Defs
import Bip300301Enforcer.TreasuryValue
import Bip300301Enforcer.Runs

/-! Every change of a treasury is reported: what a block adds to a treasury is
what its deposit events say, less what its withdrawals pay out. -/
namespace Bip300301Enforcer
open Lib Chain BlockHandler ActiveSidechainDbs

def BlockEvent.depositedTo (s : SidechainNumber) : BlockEvent → ℕ
  | .deposits ds => ((ds.get? s).map Deposit.value).getD 0
  | _ => 0

def depositsTo (s : SidechainNumber) (events : List BlockEvent) : ℕ :=
  (events.map (BlockEvent.depositedTo s)).sum

def BlockEvent.paysOut (s : SidechainNumber) : BlockEvent → Bool
  | .withdrawalBundle ⟨s',_,.succeeded _ _⟩ => s' = s
  | _ => false

/-- Whether a transaction is reported as a withdrawal from a slot. -/
def TxStep.withdraws (st : TxStep) (s : SidechainNumber) : Bool :=
  (st.after.events.drop st.before.events.length).any (BlockEvent.paysOut s)

def UnconsolidatedCtips.valueOf (u : UnconsolidatedCtips) (s : SidechainNumber) : ℕ :=
  u.byOutpoint.sumBy (fun _ e => if e.1 = s then e.2 else 0)

/-- The ctip of a slot and its unconsolidated outputs together. -/
def TxState.total (acc : TxState) (s : SidechainNumber) : ℕ :=
  acc.dbs.treasuryValue s+acc.unconsolidatedCtips.valueOf s

section Step

variable [Bitcoin] {h : BlockHandler} {c : Chain} {coinbase : Transaction} {st : TxStep}
  {infos : FinMap SidechainNumber TxCtipsInfo} {res : Option DepositsOrSuccessfulWithdrawal}
  {s : SidechainNumber}

theorem StepOk.unconsolidated_after (hok : StepOk h c coinbase st)
    (hd : TxDone h st.before st.tx st.after infos res) (o : OutPoint) (v : ℕ) :
    st.after.unconsolidatedCtips.byOutpoint.get? o = some (s,v) ↔
      (o ∉ st.tx.spent ∧ st.before.unconsolidatedCtips.byOutpoint.get? o = some (s,v)) ∨
      ∃ info, slotInfo h st.before.dbs st.before.unconsolidatedCtips st.tx s = some info ∧
        isNewCtip st.before.dbs s info = false ∧ info.ctipOutput = ⟨o,v⟩ := by
  have hb := hok.backed
  rw [hd.unconsolidated]
  exact updateAll_fillCtips hd.fill
    (fun o ho => hb.new_unconsolidated (by rw [ho]; exact hok.new))
    (fun o e he => ((hb.unconsolidated o e.1 e.2).mp he).2.2.1) o s v

/-- What the transaction spends of the unconsolidated outputs of a slot. -/
def TxStep.unconsolidatedSpent (st : TxStep) (s : SidechainNumber) : List Ctip :=
  st.before.dbs.unconsolidatedInputs st.before.unconsolidatedCtips s st.tx.input

def TxStep.unconsolidatedKept (st : TxStep) (s : SidechainNumber) :
    FinMap OutPoint (SidechainNumber × ℕ) :=
  st.before.unconsolidatedCtips.byOutpoint.eraseAll ((st.unconsolidatedSpent s).map Ctip.outpoint)

theorem StepOk.valueOf_erased (hok : StepOk h c coinbase st) :
    st.before.unconsolidatedCtips.valueOf s =
      ((st.unconsolidatedSpent s).map Ctip.value).sum+
        (st.unconsolidatedKept s).sumBy (fun _ e => if e.1 = s then e.2 else 0) := by
  obtain ⟨L',hL'⟩ := hok.spends
  obtain ⟨hnodup,-,-⟩ := Utxos.applyTx_some hL'
  have hn : ((st.unconsolidatedSpent s).map Ctip.outpoint).Nodup :=
    (unconsolidatedInputs_sublist _ _ _ _).nodup hnodup
  have hmem : ∀ cc ∈ st.unconsolidatedSpent s,
      st.before.unconsolidatedCtips.byOutpoint.get? cc.outpoint = some (s,cc.value) :=
    fun cc hcc => (mem_unconsolidatedInputs.mp hcc).2.2
  let g : OutPoint → ℕ := fun o =>
    ((st.before.unconsolidatedCtips.byOutpoint.get? o).map Prod.snd).getD 0
  have hg : ((st.unconsolidatedSpent s).map Ctip.outpoint).map g =
      (st.unconsolidatedSpent s).map Ctip.value := by
    rw [List.map_map]
    refine List.map_congr_left ?_
    intro cc hcc
    simp [g,hmem cc hcc]
  rw [UnconsolidatedCtips.valueOf,TxStep.unconsolidatedKept,FinMap.sumBy_eraseAll _ _ hn g ?_,hg]
  intro o ho
  obtain ⟨cc,hcc,rfl⟩ := List.mem_map.mp ho
  exact ⟨(s,cc.value),hmem cc hcc,by simp [g,hmem cc hcc]⟩

theorem StepOk.mem_unconsolidatedSpent (hok : StepOk h c coinbase st) {o : OutPoint} {v : ℕ}
    (hu : st.before.unconsolidatedCtips.byOutpoint.get? o = some (s,v)) :
    o ∈ (st.unconsolidatedSpent s).map Ctip.outpoint ↔ o ∈ st.tx.spent := by
  have hidx := ((hok.backed.unconsolidated o s v).mp hu).2.2.1
  constructor
  · intro hm
    exact (unconsolidatedInputs_sublist _ _ _ _).subset hm
  · intro hm
    obtain ⟨i,hi,ho⟩ := List.mem_map.mp hm
    exact List.mem_map.mpr ⟨⟨o,v⟩,mem_unconsolidatedInputs.mpr ⟨⟨i,hi,ho⟩,hidx,hu⟩,rfl⟩

/-- The value of the unconsolidated outputs of a slot after a transaction. -/
theorem StepOk.valueOf_after (hok : StepOk h c coinbase st)
    (hd : TxDone h st.before st.tx st.after infos res) :
    st.after.unconsolidatedCtips.valueOf s+((st.unconsolidatedSpent s).map Ctip.value).sum =
      st.before.unconsolidatedCtips.valueOf s+
        match slotInfo h st.before.dbs st.before.unconsolidatedCtips st.tx s with
        | none => 0
        | some info => if isNewCtip st.before.dbs s info then 0 else info.ctipOutput.value := by
  have hafter := hok.unconsolidated_after (s := s) hd
  have hkeep : ∀ o v, (o ∉ st.tx.spent ∧
      st.before.unconsolidatedCtips.byOutpoint.get? o = some (s,v)) ↔
      (st.unconsolidatedKept s).get? o = some (s,v) := by
    intro o v
    rw [TxStep.unconsolidatedKept,FinMap.get?_eraseAll]
    constructor
    · rintro ⟨hns,hu⟩
      rw [if_neg (fun hm => hns ((hok.mem_unconsolidatedSpent hu).mp hm)),hu]
    · intro hu
      split at hu
      · cases hu
      · rename_i hm
        exact ⟨fun hs => hm ((hok.mem_unconsolidatedSpent hu).mpr hs),hu⟩
  have hsum (m : FinMap OutPoint (SidechainNumber × ℕ))
      (hm : ∀ o v, st.after.unconsolidatedCtips.byOutpoint.get? o = some (s,v) ↔
        m.get? o = some (s,v)) : st.after.unconsolidatedCtips.valueOf s =
        m.sumBy (fun _ e => if e.1 = s then e.2 else 0) := by
    refine FinMap.sumBy_congr _ ?_
    rintro o ⟨s',v⟩ hne
    by_cases hs : s' = s
    · subst hs; exact hm o v
    · simp [hs] at hne
  have herase := hok.valueOf_erased (s := s)
  cases hi : slotInfo h st.before.dbs st.before.unconsolidatedCtips st.tx s with
  | none =>
    rw [hsum (st.unconsolidatedKept s) (fun o v => by rw [hafter o v,hi,hkeep]; simp),herase]
    simp only
    omega
  | some info =>
    cases hn : isNewCtip st.before.dbs s info with
    | true =>
      rw [hsum (st.unconsolidatedKept s) (fun o v => by
        rw [hafter o v,hi,hkeep]
        simp [hn]),herase]
      simp only [hn,if_true]
      omega
    | false =>
      have hnone : (st.unconsolidatedKept s).get? info.ctipOutput.outpoint = none := by
        rw [TxStep.unconsolidatedKept,FinMap.get?_eraseAll]
        split
        · rfl
        · exact hok.backed.new_unconsolidated (by rw [slotInfo_txid hi]; exact hok.new)
      have hinsert : ∀ o v, st.after.unconsolidatedCtips.byOutpoint.get? o = some (s,v) ↔
          ((st.unconsolidatedKept s).insert info.ctipOutput.outpoint
            (s,info.ctipOutput.value)).get? o = some (s,v) := by
        intro o v
        rw [hafter o v,hi,hkeep,FinMap.get?_insert]
        by_cases ho : info.ctipOutput.outpoint = o
        · subst ho
          rw [hnone,if_pos rfl]
          constructor
          · rintro (hx | ⟨info',hinfo,-,hc⟩)
            · cases hx
            · obtain rfl := Option.some.inj hinfo
              exact congrArg (fun w => some (s,w)) (congrArg Ctip.value hc)
          · intro he
            have hv := (Prod.mk.inj (Option.some.inj he)).2
            exact .inr ⟨info,rfl,hn,by rw [← hv]⟩
        · rw [if_neg ho]
          refine or_iff_left ?_
          rintro ⟨info',hinfo,-,hc⟩
          obtain rfl := Option.some.inj hinfo
          exact ho (congrArg Ctip.outpoint hc)
      rw [hsum _ hinsert,FinMap.sumBy_insert _ _ hnone,herase]
      simp only [hn,if_true,Bool.false_eq_true,if_false]
      omega

/-- A transaction moves exactly what it spends and creates of a treasury. -/
theorem StepOk.total_after (hok : StepOk h c coinbase st)
    (hd : TxDone h st.before st.tx st.after infos res) :
    match slotInfo h st.before.dbs st.before.unconsolidatedCtips st.tx s with
    | none => st.after.total s = st.before.total s
    | some info => st.after.total s+info.treasuryValueIn =
        st.before.total s+info.ctipOutput.value := by
  have hvalue := hok.valueOf_after (s := s) hd
  have hctip := txDone_ctip hd s
  rw [newCtips_get? hd] at hctip
  obtain ⟨hform,-⟩ := fillCtips_ok.mp hd.fill
  unfold TxState.total
  cases hi : slotInfo h st.before.dbs st.before.unconsolidatedCtips st.tx s with
  | none =>
    rw [hi,Option.bind_none,Option.none_or] at hctip
    have hnil : st.unconsolidatedSpent s = [] := (hform.replaced s hi).2
    simp only [hi,hnil,List.map_nil,List.sum_nil,Nat.add_zero] at hvalue
    simp only [treasuryValue,hctip,hvalue]
  | some info =>
    obtain ⟨-,n,out,-,-,hinfo,-⟩ := slotInfo_output hi
    have hcons : info.consolidatedCtipInput = (st.before.dbs.consolidatedInputs s st.tx.input).head? := by
      rw [hinfo]; rfl
    have hun : (info.unconsolidatedCtipInputs.map Ctip.value).sum =
        ((st.unconsolidatedSpent s).map Ctip.value).sum := by
      obtain ⟨L',hL'⟩ := hok.spends
      obtain ⟨hnodup,-,-⟩ := Utxos.applyTx_some hL'
      have hn : (st.unconsolidatedSpent s).Nodup := List.Nodup.of_map Ctip.outpoint
        ((unconsolidatedInputs_sublist _ _ _ _).nodup hnodup)
      rw [hinfo]
      exact ((asSet_perm hn).map Ctip.value).sum_eq
    rw [hi,Option.bind_some] at hctip
    simp only [hi] at hvalue ⊢
    simp only [TxCtipsInfo.treasuryValueIn,hun]
    cases hn : isNewCtip st.before.dbs s info with
    | true =>
      rw [newCtipOf,if_pos hn,Option.some_or] at hctip
      simp only [hn,if_true] at hvalue
      have hold : st.before.dbs.treasuryValue s = (info.consolidatedCtipInput.map Ctip.value).getD 0 := by
        cases hc : info.consolidatedCtipInput with
        | some cc =>
          obtain ⟨L',hL'⟩ := hok.spends
          obtain ⟨-,hin,-⟩ := Utxos.applyTx_some hL'
          have hcur := hok.backed.spends_current hin
            (List.mem_of_mem_head? (hcons.symm.trans hc))
          simp [treasuryValue,hcur.1]
        | none =>
          have hno : st.before.dbs.ctip.get? s = none := by
            simpa [isNewCtip,hc,FinMap.contains] using hn
          simp [treasuryValue,hno]
      simp only [treasuryValue,hctip] at hold ⊢
      rw [hold]
      omega
    | false =>
      rw [newCtipOf,if_neg (by simp [hn]),Option.none_or] at hctip
      have hnoc : info.consolidatedCtipInput = none := by
        cases hc : info.consolidatedCtipInput with
        | none => rfl
        | some cc => simp [isNewCtip,hc] at hn
      simp only [hn,Bool.false_eq_true,if_false] at hvalue
      simp only [treasuryValue,hctip,hnoc,Option.map_none,Option.getD_none]
      omega

theorem makeDeposit_value {dbs : ActiveSidechainDbs} {tx : Transaction} {info : TxCtipsInfo}
    {deposit : Option Deposit} (hd : SlotDeposits dbs tx s info deposit) :
    info.treasuryValueIn+(deposit.map Deposit.value).getD 0 = info.ctipOutput.value := by
  have hle := hd.le
  have hm := hd.deposit
  unfold makeDeposit at hm
  split at hm
  · simp only [Fallible.bind_ok,Fallible.require_ok,Fallible.pure_ok] at hm
    obtain ⟨out,-,address,-,rfl⟩ := hm
    simp only [Option.map_some,Option.getD_some]
    omega
  · obtain rfl := Except.ok.inj hm
    simp only [Option.map_none,Option.getD_none]
    omega

omit [Bitcoin] in
theorem depositsTo_append (s : SidechainNumber) (a b : List BlockEvent) :
    depositsTo s (a++b) = depositsTo s a+depositsTo s b := by
  simp [depositsTo]

omit [Bitcoin] in
theorem depositsTo_singleton (s : SidechainNumber) (e : BlockEvent) :
    depositsTo s [e] = e.depositedTo s := by
  simp [depositsTo]

/-- What a withdrawal takes out of a slot's treasury. -/
def TxStep.paid (st : TxStep) (op : OpDrivechain) (s : SidechainNumber) : ℤ :=
  (st.valueIn op s : ℤ)-st.valueOut op s

/-- Every transaction reports what it does to each treasury. -/
theorem StepOk.reported (hok : StepOk h c coinbase st) :
    (st.after.total s : ℤ)-depositsTo s st.after.events =
      (st.before.total s : ℤ)-depositsTo s st.before.events+
        -(if st.withdraws s then st.paid h.params.opDrivechain s else 0) := by
  rcases hok.did with ⟨-,-,hsame⟩ | ⟨infos,res,hd⟩
  · have hno : st.withdraws s = false := by simp [TxStep.withdraws,hsame]
    simp [hno,hsame]
  have htotal := hok.total_after (s := s) hd
  obtain ⟨new,he,hslot⟩ := hd.slotEvents s
  have hpays : st.withdraws s = new.any (BlockEvent.paysOut s) := by simp [TxStep.withdraws,he]
  rw [he,depositsTo_append,hpays]
  rcases hslot with ⟨hi,hnew⟩ | ⟨info,m6id,hi,-,rfl⟩ | ⟨info,ds,hi,hdep,rfl⟩
  · simp only [hi] at htotal
    have hno : new.any (BlockEvent.paysOut s) = false := by
      refine List.any_eq_false.mpr (fun e hm => ?_)
      rcases hnew e hm with ⟨ds,rfl,-⟩ | ⟨s',m6id,n,hs,rfl⟩
      · simp [BlockEvent.paysOut]
      · simpa [BlockEvent.paysOut] using hs
    have hzero : depositsTo s new = 0 := by
      refine List.sum_eq_zero (fun v hv => ?_)
      obtain ⟨e,hm,rfl⟩ := List.mem_map.mp hv
      rcases hnew e hm with ⟨ds,rfl,hds⟩ | ⟨s',m6id,n,-,rfl⟩
      · simp [BlockEvent.depositedTo,hds]
      · rfl
    simp [hno,hzero,htotal]
  · simp only [hi] at htotal
    have hin := hok.valueIn_eq hd hi
    have hout := valueOut_eq hd hi
    have hpaid : [BlockEvent.withdrawalBundle ⟨s,m6id,.succeeded (st.before.dbs.count s) st.tx⟩].any
        (BlockEvent.paysOut s) = true := by simp [BlockEvent.paysOut]
    rw [depositsTo_singleton,if_pos hpaid,TxStep.paid]
    simp only [BlockEvent.depositedTo]
    omega
  · simp only [hi] at htotal
    have hvalue := makeDeposit_value hdep
    rw [depositsTo_singleton]
    simp only [BlockEvent.depositedTo,List.any_cons,List.any_nil,BlockEvent.paysOut,Bool.or_false,
      Bool.false_eq_true,if_false]
    omega

end Step

section Block

variable {h : BlockHandler} {stale : Prop} {D : BlockHash → Option Diff.Block} {c : Chain}
  {t : ConsensusDbs} {b : Block} {coinbase : Transaction} {txs : List Transaction}
  {res : ProcessedBlock}

theorem depositsTo_noDeposits {events : List BlockEvent} (hn : NoDeposits events)
    (s : SidechainNumber) : depositsTo s events = 0 := by
  unfold depositsTo
  apply List.sum_eq_zero
  intro n hmem
  obtain ⟨e,he,rfl⟩ := List.mem_map.mp hmem
  cases e with
  | deposits ds => exact absurd he (hn ds)
  | sidechainProposal _ _ => rfl
  | withdrawalBundle _ => rfl

theorem sum_map_ite_neg {α : Type} (l : List α) (p : α → Bool) (g : α → ℤ) :
    (l.map (fun a => -(if p a then g a else 0))).sum = -((l.filter p).map g).sum := by
  induction l with
  | nil => rfl
  | cons a l ih =>
    cases hp : p a with
    | true => simp only [List.map_cons,List.sum_cons,ih,hp,if_true,List.filter_cons_of_pos]; omega
    | false => simp [hp,ih]

variable [Bitcoin]

/-- A block changes a treasury by its deposits less its withdrawals. -/
theorem Accepted.conserves (ha : Accepted h D c t b coinbase txs res) (hw : t.Wf)
    (hv : UtxoValid c b) (hcb : ChainBacked h c t)
    (hempty : c.length < h.params.bip300ActivationHeight → t.activeSidechains = .empty)
    (s : SidechainNumber) :
    (res.dbs.activeSidechains.treasuryValue s : ℤ) = t.activeSidechains.treasuryValue s+
      depositsTo s res.blockInfo.events-
      (((h.txSteps D c t b).filter (fun st => st.withdraws s)).map
        (fun st => st.paid h.params.opDrivechain s)).sum := by
  obtain ⟨-,-,hall⟩ := ha.steps hw hv hcb hempty
  obtain ⟨L,hL,-⟩ := hcb
  obtain ⟨accepted,acc,acc',hstart,hf,hdbs,hu,hev,-,hst,-,hdef,hno,-⟩ := ha.start hw
  obtain ⟨L',hL'⟩ := hv.spends
  have happly : txs.foldlM Utxos.applyTx (L.add coinbase) = some L' := by
    simpa [utxos,hL,Utxos.applyBlock,ha.txdata] using hL'
  have hsteps : h.txSteps D c t b = stepsFrom (h.connectTxAt c.length accepted
      b.header.prevBlockhash b.blockHash) acc (L.add coinbase) [] txs := by
    simp only [txSteps,ha.txdata,hstart,hL]
  have hsum := stepsFrom_sum (fun acc => (acc.total s : ℤ)-depositsTo s acc.events)
    (fun st => -(if st.withdraws s then st.paid h.params.opDrivechain s else 0)) [] hf happly
    (by
      rw [← hsteps]
      exact fun st hst => (hall st hst).reported)
  rw [← hsteps,sum_map_ite_neg] at hsum
  have hend : acc'.total s = res.dbs.activeSidechains.treasuryValue s := by
    rw [TxState.total,hdbs,UnconsolidatedCtips.valueOf,← hu,ha.consolidated,FinMap.sumBy_empty]
    omega
  have hbegin : acc.total s = t.activeSidechains.treasuryValue s := by
    rw [TxState.total,hst.treasuryValue,hdef,UnconsolidatedCtips.valueOf,UnconsolidatedCtips.default,
      FinMap.sumBy_empty]
    omega
  simp only [hend,hbegin,depositsTo_noDeposits hno,← hev] at hsum
  omega

theorem Accepted.no_leftover (ha : Accepted h D c t b coinbase txs res)
    (he : EndBacked h c b coinbase txs res) :
    ∃ L, Chain.utxos (b::c) = some L ∧ ∀ s o out, L.get? o = some out → o.txid ∈ b.newTxids →
      res.dbs.activeSidechains.sidechain.contains s = true →
      h.params.opDrivechain.parse out.scriptPubkey = some s →
      res.dbs.activeSidechains.ctip.get? s = some ⟨o,out.value⟩ := by
  obtain ⟨L,hL,hend⟩ := he
  refine ⟨L,hL,?_⟩
  intro s o out hout hnew hact hp
  rw [ha.newTxids] at hnew
  cases hidx : res.dbs.activeSidechains.ctipOutpointToValueSeq.get? o with
  | none =>
    have hu := (hend.unconsolidated o s out.value).mpr ⟨hnew,hact,hidx,out,hout,rfl,hp⟩
    rw [ha.consolidated,FinMap.get?_empty] at hu
    cases hu
  | some e =>
    obtain ⟨s',v,n⟩ := e
    have hc := hend.current o s' v n out hidx hout
    obtain ⟨out',hout',hv,hp'⟩ := hend.ctip s' _ hc
    obtain rfl := Option.some.inj (hout.symm.trans hout')
    obtain rfl := Option.some.inj (hp.symm.trans hp')
    rw [hc,hv]

/-- For every reachable state and every accepted block that is valid for Bitcoin,
the treasury of each slot changes by exactly the deposits that the block reports,
less what its withdrawals take out, and no treasury output of the block is left
over beside the ctip. -/
theorem treasury_conserved {dbs dbs' : Dbs} {headerInfo : HeaderInfo} {info : BlockInfo}
    (hr : Reach h UtxoValid stale dbs c) (hv : UtxoValid c b)
    (hh : dbs.blockHashes.header.get? b.blockHash = some b.header)
    (hc : h.connectBlock dbs b = .ok (.connectBlock headerInfo info,dbs')) :
    (∀ s, (dbs'.activeSidechains.treasuryValue s : ℤ) = dbs.activeSidechains.treasuryValue s+
      depositsTo s info.events-
      (((h.blockSteps dbs c b).filter (fun st => st.withdraws s)).map
        (fun st => st.paid h.params.opDrivechain s)).sum) ∧
    ∃ L, Chain.utxos (b::c) = some L ∧ ∀ s o out, L.get? o = some out → o.txid ∈ b.newTxids →
      dbs'.activeSidechains.sidechain.contains s = true →
      h.params.opDrivechain.parse out.scriptPubkey = some s →
      dbs'.activeSidechains.ctip.get? s = some ⟨o,out.value⟩ := by
  have hs := hr.synced
  obtain ⟨coinbase,txs,res,ha,he,hdbs,-⟩ := hs.connected hh hc
  obtain ⟨-,rfl⟩ := Event.connectBlock.inj he
  obtain ⟨hw,-⟩ := hs.grown.wf
  have hback := hs.grown.backed hs.valid
  have hempty : c.length < h.params.bip300ActivationHeight → dbs.activeSidechains = .empty :=
    fun hlt => hs.grown.active_empty fresh_utxoValid (by omega)
  obtain ⟨-,hend,-⟩ := ha.steps hw hv hback hempty
  have hactive : dbs'.activeSidechains = res.dbs.activeSidechains :=
    congrArg ConsensusDbs.activeSidechains hdbs
  rw [hactive]
  exact ⟨ha.conserves hw hv hback hempty,ha.no_leftover hend⟩

end Block

section Sample

open Sample

namespace TreasurySample

def handler : BlockHandler := .new (.new .bitcoin .regtest)

def description : List UInt8 := [1,2,3]

def treasuryScript : Script := handler.params.opDrivechain.script 0

def funding : OutPoint := (coinbaseWith 0 [[]]).outpoint 0

def deposit : Transaction :=
  ⟨2,0,[.spending funding],[⟨100,treasuryScript⟩,⟨0,Script.newOpReturn [9]⟩]⟩

def withdrawal : Transaction :=
  ⟨2,0,[.spending (deposit.outpoint 0)],[⟨60,treasuryScript⟩,⟨30,[0x51]⟩]⟩

def bundle : M6id := Transaction.computeTxid ⟨2,0,[],[OpDrivechain.feeOutput 10,⟨30,[0x51]⟩]⟩

def contents : List (List Script × List Transaction) :=
  [([[]],[]),([m1Script 0 description],[])]++
  List.replicate 6 ([m2Script 0 (sha256d description)],[])++
  [([],[deposit]),([m3Script 0 bundle],[])]++
  List.replicate 5 ([m4Script [0]],[])

def blocks : List Block := blocksOn allZeros 0 contents

def paying : Block :=
  blockOn ((blocks.getLast?.map Block.blockHash).getD allZeros) 15 [] [withdrawal]

def run : Dbs × Chain :=
  Call.runAll handler UtxoValid (Call.connectAll blocks++[.header paying.header 15])

theorem reach_run : Reach handler UtxoValid False run.1 run.2 :=
  Call.reach_runAll _ (by decide)

end TreasurySample

open TreasurySample

theorem treasury_conserved_sample :
    ∃ headerInfo info dbs', handler.connectBlock run.1 paying =
        .ok (.connectBlock headerInfo info,dbs') ∧
      (dbs'.activeSidechains.treasuryValue 0 : ℤ) = run.1.activeSidechains.treasuryValue 0+
        depositsTo 0 info.events-
        (((handler.blockSteps run.1 run.2 paying).filter (fun st => st.withdraws 0)).map
          (fun st => st.paid handler.params.opDrivechain 0)).sum ∧
      run.1.activeSidechains.treasuryValue 0 = 100 ∧
      (((handler.blockSteps run.1 run.2 paying).filter (fun st => st.withdraws 0)).map
        (fun st => st.paid handler.params.opDrivechain 0)).sum = 40 := by
  have hh : run.1.blockHashes.header.get? paying.blockHash = some paying.header := by decide +kernel
  obtain ⟨⟨event,dbs'⟩,hc⟩ : ∃ r, handler.connectBlock run.1 paying = .ok r :=
    Fallible.exists_of_isOk (by decide +kernel)
  obtain ⟨coinbase,txs,res,-,rfl,-,-⟩ := reach_run.synced.connected hh hc
  exact ⟨_,_,dbs',hc,(treasury_conserved reach_run (by decide +kernel) hh hc).1 0,by decide +kernel,
    by decide +kernel⟩

end Sample

end Bip300301Enforcer
