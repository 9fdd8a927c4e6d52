import Bip300301Enforcer.ChainHistory
import Bip300301Enforcer.TreasuryLedger
import Bip300301Enforcer.Runs
import Bip300301Enforcer.Lib.Numbering

/-! The sequence numbers of the deposits and withdrawals of a slot. They are read off the
number of treasury outputs that the slot has had, which a deposit that leaves the ctip
unspent does not change. -/
namespace Bip300301Enforcer
open Lib Chain BlockHandler

def BlockEvent.sequenceNumbers (s : SidechainNumber) : BlockEvent → List ℕ
  | .deposits ds => ((ds.get? s).map Deposit.sequenceNumber).toList
  | .withdrawalBundle ⟨s',_,.succeeded n _⟩ => if s' = s then [n] else []
  | _ => []

/-- The sequence numbers of the deposits and withdrawals of a slot, in their order. -/
def sequenceNumbers (s : SidechainNumber) (events : List BlockEvent) : List ℕ :=
  events.flatMap (BlockEvent.sequenceNumbers s)

def Chain.events [Bitcoin] (E : BlockHash → Option (List BlockEvent)) (c : Chain) :
    List BlockEvent :=
  c.reverse.flatMap (fun b => (E b.blockHash).getD [])

section Slot

variable [Bitcoin] (h : BlockHandler) (s : SidechainNumber)

/-- Whether a transaction raises or lowers a slot's treasury. -/
def ReadTx.changesValue (st : ReadTx) : Bool :=
  (st.info h s).any (fun info => info.ctipOutput.value ≠ info.treasuryValueIn)

/-- Whether the treasury output of a transaction becomes the ctip of a slot: it spends the
ctip, or there is none yet. -/
def ReadTx.replacesCtip (st : ReadTx) : Bool :=
  (st.info h s).any (isNewCtip st.before.dbs s)

/-- Every deposit that leaves the ctip of the slot unspent is followed by a transaction that
spends it and does not change the value, before the next deposit or withdrawal. -/
def ConsolidatedApart (reads : List ReadTx) : Prop :=
  Numbering.Separated (ReadTx.changesValue h s) (ReadTx.replacesCtip h s) reads

end Slot

section Numbers

variable {h : BlockHandler} {V : Chain → Block → Prop} {c : Chain} {t : ConsensusDbs}
  {D : BlockHash → Option Diff.Block} {E : BlockHash → Option (List BlockEvent)}
  {reads : List ReadTx} {s : SidechainNumber} {dbs : Dbs}

theorem sequenceNumbers_append (a b : List BlockEvent) :
    sequenceNumbers s (a++b) = sequenceNumbers s a++sequenceNumbers s b := List.flatMap_append

theorem count_putCtips (dbs : ActiveSidechainDbs) (l : List (SidechainNumber × Ctip))
    (hl : (l.map Prod.fst).Nodup) :
    (dbs.putCtips l).count s = if s ∈ l.map Prod.fst then dbs.count s+1 else dbs.count s := by
  induction l generalizing dbs with
  | nil => rfl
  | cons e l ih =>
    rw [List.map_cons,List.nodup_cons] at hl
    rw [ActiveSidechainDbs.putCtips_cons,ih _ hl.2]
    by_cases he : e.1 = s
    · rw [← he,if_neg hl.1,if_pos (List.mem_map.mpr ⟨e,List.mem_cons_self ..,rfl⟩),
        ActiveSidechainDbs.count_putCtip_self]
    · rw [ActiveSidechainDbs.count_putCtip_ne _ _ _ he]
      simp only [List.map_cons,List.mem_cons,Ne.symm he,false_or]

variable [Bitcoin]

theorem sequenceNumbers_message {proposals : FinMap SidechainProposalId ℕ} {n : ℕ}
    {parent : BlockHash} {prevDiff : Option Diff.Block} {msg : CoinbaseMessage}
    {event : Option CoinbaseMessageEvent} {d : Option Diff.CoinbaseMsg} {events : List BlockEvent}
    (hh : Handled h t n parent prevDiff msg event d) (hm : messageEvent proposals event = .ok events) :
    sequenceNumbers s events = [] := by
  cases hh with
  | m1New new =>
    obtain ⟨vout,-,hm⟩ := Fallible.bind_ok.mp hm
    rw [Fallible.pure_ok] at hm
    subst hm
    rfl
  | m3 active pending new =>
    obtain rfl := Except.ok.inj hm
    rfl
  | _ =>
    obtain rfl := Except.ok.inj hm
    rfl

/-- The coinbase of a block reports no deposit and no withdrawal. -/
theorem sequenceNumbers_coinbase {n : ℕ} {parent : BlockHash} {prevDiff : Option Diff.Block}
    {coinbase : Transaction} {t₂ : ConsensusDbs} {accepted : BmmCommitments}
    {events : List BlockEvent} {d : Diff.Coinbase}
    (hc : h.connectCoinbase t n parent prevDiff coinbase = .ok (t₂,accepted,events,d)) :
    sequenceNumbers s events = [] := by
  obtain ⟨scan,-,hc⟩ := Fallible.bind_ok.mp hc
  obtain ⟨acc,hacc,hc⟩ := Fallible.bind_ok.mp hc
  rw [connectMissingM4_eq,Fallible.ok_bind] at hc
  obtain ⟨failed,-,hc⟩ := Fallible.bind_ok.mp hc
  obtain ⟨active,-,hc⟩ := Fallible.bind_ok.mp hc
  simp only [Fallible.pure_ok,Prod.mk.injEq] at hc
  obtain ⟨-,-,rfl,-⟩ := hc
  have hmsgs : sequenceNumbers s acc.events = [] := by
    refine Fallible.foldlM_prefix (fun _ acc => sequenceNumbers s acc.events = []) hacc rfl ?_
    intro done m rest acc acc' _ hnone hm
    obtain ⟨event,events,he,hev,hcase⟩ := connectMessage_ok hm
    rw [hev,sequenceNumbers_append,hnone,List.nil_append]
    rcases hcase with ⟨hh,-,-⟩ | ⟨d,hh,-,-⟩
    · exact sequenceNumbers_message hh he
    · exact sequenceNumbers_message hh he
  rw [sequenceNumbers_append,hmsgs,List.nil_append,sequenceNumbers,List.flatMap_eq_nil_iff]
  intro e he
  obtain ⟨f,-,he⟩ := List.mem_flatMap.mp he
  obtain ⟨f',-,rfl⟩ := List.mem_map.mp he
  rfl

/-- The events and the number of treasury outputs after a transaction. -/
theorem readTx_numbers {accepted : BmmCommitments} {parent hash : BlockHash} {st : ReadTx}
    (hc : h.connectTx accepted parent hash st.before st.tx = .ok st.after) :
    sequenceNumbers s st.after.events = sequenceNumbers s st.before.events++
        (if st.changesValue h s then [st.before.dbs.count s] else []) ∧
      st.after.dbs.count s =
        Numbering.next (ReadTx.replacesCtip h s) (st.before.dbs.count s) st := by
  obtain ⟨infos,res,hd⟩ := connectTx_ok hc
  constructor
  · obtain ⟨new,he,hslot⟩ := hd.slotEvents s
    rw [he,sequenceNumbers_append]
    congr 1
    unfold ReadTx.changesValue ReadTx.info
    rcases hslot with ⟨hi,hnew⟩ | ⟨info,m6id,hi,hlt,rfl⟩ | ⟨info,ds,hi,hdep,rfl⟩
    · rw [hi,sequenceNumbers,List.flatMap_eq_nil_iff.mpr]
      · rfl
      · intro e hm
        rcases hnew e hm with ⟨ds,rfl,hds⟩ | ⟨s',m6id,n,hs,rfl⟩
        · rw [BlockEvent.sequenceNumbers,hds]
          rfl
        · exact if_neg hs
    · have hne : info.ctipOutput.value ≠ info.treasuryValueIn := Nat.ne_of_lt hlt
      rw [hi,Option.any_some,decide_eq_true hne,if_pos rfl]
      exact (List.append_nil _).trans (if_pos rfl)
    · have hev : sequenceNumbers s [.deposits ds] =
          ((ds.get? s).map Deposit.sequenceNumber).toList := List.append_nil _
      have hle := hdep.le
      have hm := hdep.deposit
      unfold makeDeposit at hm
      rw [hi,Option.any_some,hev]
      split at hm
      · rename_i hlt
        simp only [Fallible.bind_ok,Fallible.require_ok,Fallible.pure_ok] at hm
        obtain ⟨out,-,address,-,hm⟩ := hm
        have hne : info.ctipOutput.value ≠ info.treasuryValueIn := Nat.ne_of_gt hlt
        rw [← hm,decide_eq_true hne]
        rfl
      · rename_i hge
        have hm := Except.ok.inj hm
        have heq : ¬ info.ctipOutput.value ≠ info.treasuryValueIn := by omega
        rw [← hm,decide_eq_false heq]
        rfl
  · rw [hd.sameTreasury.count,count_putCtips _ _ (FinMap.nodup_keys _),Numbering.next]
    have hiff : s ∈ (newCtips res).toList.map Prod.fst ↔ st.replacesCtip h s = true := by
      have hkeys : s ∈ (newCtips res).toList.map Prod.fst ↔ s ∈ (newCtips res).keys := Iff.rfl
      rw [hkeys,FinMap.mem_keys,FinMap.contains,newCtips_get? hd,ReadTx.replacesCtip,ReadTx.info]
      cases slotInfo h st.before.dbs st.before.unconsolidatedCtips st.tx s with
      | none => simp
      | some info =>
        rw [Option.bind_some,Option.any_some,newCtipOf]
        cases isNewCtip st.before.dbs s info <;> simp
    simp only [hiff]

/-- The numbers of a chain are those of a counter that a transaction moves when it replaces
the ctip. -/
theorem History.sequenceNumbers (hh : History h V D E c t reads) :
    sequenceNumbers s (c.events E) =
        Numbering.numbers (ReadTx.changesValue h s) (ReadTx.replacesCtip h s) 0 reads ∧
      t.activeSidechains.count s = Numbering.final (ReadTx.replacesCtip h s) 0 reads := by
  induction hh with
  | base hb =>
    obtain ⟨i,hi,-⟩ := hb.bare.active
    refine ⟨rfl,?_⟩
    rw [hi]
    rfl
  | @connect c t t' b coinbase txs res reads hh hv ha hs he hl ih =>
    obtain ⟨hnums,hcount⟩ := ih
    have hcount' : t'.activeSidechains.count s = res.dbs.activeSidechains.count s := by
      obtain ⟨i,hi,-⟩ := hl.1
      rw [hi]
      rfl
    have hevents : Chain.events E (b::c) = c.events E++res.blockInfo.events := by
      simp [Chain.events,he]
    rw [hcount',hevents,sequenceNumbers_append,hnums,Numbering.numbers_append,
      Numbering.final_append,← hcount]
    rcases processBlock_ok ha.processed with
      ⟨hlt,rfl⟩ | ⟨hle,scan,t₁,t₂,accepted,events,d,acc,hcb,hc,hf,rfl⟩
    · rw [BlockHandler.reads,if_pos hlt]
      exact ⟨rfl,rfl⟩
    · rw [BlockHandler.reads,if_neg (by omega),hcb]
      have hstart : t₂.activeSidechains.count s = t.activeSidechains.count s :=
        (hc.frame hh.grown.wf.1).1.count s
      have hspec := readsFrom_spec (fun done acc =>
        Bip300301Enforcer.sequenceNumbers s acc.events = Numbering.numbers (ReadTx.changesValue h s)
            (ReadTx.replacesCtip h s) (t.activeSidechains.count s) done ∧
          acc.dbs.count s = Numbering.final (ReadTx.replacesCtip h s)
            (t.activeSidechains.count s) done) hf
        ⟨sequenceNumbers_coinbase hcb,hstart⟩ ?_
      · exact ⟨by rw [hspec.1],hspec.2⟩
      · rintro done st ⟨hn,hk⟩ hst
        obtain ⟨hn',hk'⟩ := readTx_numbers (s := s) hst
        rw [Numbering.numbers_append,Numbering.final_append,hn',hk',hn,← hk]
        exact ⟨rfl,rfl⟩

/-- In every reachable state the sequence numbers of a slot's deposits and withdrawals are
strictly increasing along the active chain exactly when each deposit that leaves the ctip
unspent is consolidated on its own, before the slot's next deposit or withdrawal. -/
theorem sequence_numbers_increase_iff (hr : Reach h V False dbs c) :
    (∃ reads, History h V dbs.blockHashes.diff.get? dbs.blockHashes.events.get? c
      dbs.toConsensusDbs reads) ∧
    ∀ s reads, History h V dbs.blockHashes.diff.get? dbs.blockHashes.events.get? c
        dbs.toConsensusDbs reads →
      ((sequenceNumbers s (c.events dbs.blockHashes.events.get?)).Pairwise (· < ·) ↔
        ConsolidatedApart h s reads) := by
  refine ⟨hr.history not_false,fun s reads hh => ?_⟩
  rw [hh.sequenceNumbers.1]
  exact Numbering.numbers_increasing_iff 0 reads

end Numbers

section Sample

open Sample

namespace NumberingSample

def handler : BlockHandler := .new (.new .bitcoin .regtest)

def treasuryScript : Script := handler.params.opDrivechain.script 0

def funds : Transaction := ⟨2,0,[],[⟨100,[]⟩,⟨50,[]⟩,⟨70,[]⟩]⟩

def genesis : Block := ⟨⟨4,allZeros,0,0,0,0⟩,[funds]⟩

def into (spent : List OutPoint) (value : ℕ) : Transaction :=
  ⟨2,0,spent.map .spending,[⟨value,treasuryScript⟩,⟨0,Script.newOpReturn [9]⟩]⟩

def first : Transaction := into [funds.outpoint 0] 100

def second : Transaction := into [funds.outpoint 1] 50

def third : Transaction := into [funds.outpoint 2] 70

def runWith (blocks : List (List Transaction)) : Dbs × Chain :=
  Call.runAll handler UtxoValid (Call.connectAll (genesis::blocksOn genesis.blockHash 1
    ([([m1Script 0 [1,2,3]],[])]++List.replicate 6 ([m2Script 0 (sha256d [1,2,3])],[])++
      ([first]::blocks).map (fun txs => ([],txs)))))

theorem reach_runWith (blocks : List (List Transaction)) :
    Reach handler UtxoValid False (runWith blocks).1 (runWith blocks).2 :=
  Call.reach_connects _ _

def together : List (List Transaction) :=
  [[second,third,into [first.outpoint 0,second.outpoint 0,third.outpoint 0] 220]]

def apart : List (List Transaction) :=
  let consolidation := into [first.outpoint 0,second.outpoint 0] 150
  [[second,consolidation],[into [consolidation.outpoint 0,funds.outpoint 2] 220]]

end NumberingSample

open NumberingSample

theorem sequence_numbers_increase_iff_sample :
    sequenceNumbers 0 ((runWith apart).2.events (runWith apart).1.blockHashes.events.get?) = [0,1,2] ∧
    ∃ reads, History handler UtxoValid (runWith apart).1.blockHashes.diff.get?
      (runWith apart).1.blockHashes.events.get? (runWith apart).2
      (runWith apart).1.toConsensusDbs reads ∧ ConsolidatedApart handler 0 reads := by
  obtain ⟨⟨reads,hh⟩,hiff⟩ := sequence_numbers_increase_iff (reach_runWith apart)
  have hnums : sequenceNumbers 0 ((runWith apart).2.events
      (runWith apart).1.blockHashes.events.get?) = [0,1,2] := by decide +kernel
  refine ⟨hnums,reads,hh,(hiff 0 reads hh).mp ?_⟩
  rw [hnums]
  decide

/-- Two deposits that leave the ctip unspent in one block get the same number. -/
theorem sequence_numbers_repeated :
    ¬ ∀ (dbs : Dbs) (c : Chain) (s : SidechainNumber), Reach handler UtxoValid False dbs c →
      (sequenceNumbers s (c.events dbs.blockHashes.events.get?)).Pairwise (· < ·) := by
  intro hall
  have hnums : sequenceNumbers 0 ((runWith together).2.events
      (runWith together).1.blockHashes.events.get?) = [0,1,1] := by decide +kernel
  have hlt := hall _ _ 0 (reach_runWith together)
  rw [hnums] at hlt
  exact absurd hlt (by decide)

end Sample

end Bip300301Enforcer
