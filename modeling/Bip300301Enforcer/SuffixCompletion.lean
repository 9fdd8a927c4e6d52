import Bip300301Enforcer.BmmMempool
import Bip300301Enforcer.SuffixRun

/-! The block that is completed with the transactions of the producer: the validator accepts it
exactly if it accepts the withdrawals, and the consolidation leaves no treasury output. -/
namespace Bip300301Enforcer
open Lib Chain BlockHandler BlockProducer ActiveSidechainDbs

section Consolidation

variable {op : OpDrivechain} {consolidated : FinMap SidechainNumber Ctip}
  {l : List (SidechainNumber × List Ctip)} {tx : Transaction}

theorem slotOutputs_scripts (op : OpDrivechain) (value : SidechainNumber → ℕ)
    {slots : List SidechainNumber} (hslots : slots.Nodup) (n : ℕ) (a : SidechainNumber) :
    ∃ k, op.slotOutputs ((slots.map (fun s => (⟨value s,op.script s⟩ : TxOut))).zipIdx n) a =
      if a ∈ slots then [(⟨value a,op.script a⟩,k)] else [] := by
  induction slots generalizing n with
  | nil => exact ⟨0,by simp [OpDrivechain.slotOutputs]⟩
  | cons s slots ih =>
    rw [List.nodup_cons] at hslots
    obtain ⟨k,hk⟩ := ih hslots.2 (n+1)
    rw [List.map_cons,slotOutputs_cons,hk]
    by_cases hs : s = a
    · subst hs
      exact ⟨n,by simp [hslots.1]⟩
    · exact ⟨k,by simp [hs,Ne.symm hs]⟩

/-- A transaction that consolidates the treasuries of all slots that are not. -/
structure Consolidation (op : OpDrivechain) (dbs : ActiveSidechainDbs) (u : UnconsolidatedCtips)
    (tx : Transaction) (slots : List SidechainNumber) : Prop where
  nodup : slots.Nodup
  unsettled : ∀ s, s ∈ slots ↔ u.ofSlot s ≠ []
  input : tx.input = spendAll (slots.flatMap (treasuryOf dbs u))
  output : tx.output = slots.map (fun s =>
    ⟨((treasuryOf dbs u s).map Ctip.value).sum,op.script s⟩)

variable {h : BlockHandler} {T : Txid → Prop} {dbs : ActiveSidechainDbs}
  {u : UnconsolidatedCtips} {slots : List SidechainNumber} {acc acc' : TxState} {ctips : Ctips}
  {order : VisitOrder} {accepted : BmmCommitments} {parent hash : BlockHash}

/-- The consolidation at the end of a block is one. -/
theorem InSync.consolidation (hs : InSync T acc ctips)
    (hm5 : (order.ctips ctips.unconsolidated.bySidechain.toList).foldlM
      (consolidateSlot op ctips.consolidated) ⟨2,0,[],[]⟩ = .ok tx) :
    ∃ slots, Consolidation op acc.dbs acc.unconsolidatedCtips tx slots := by
  rw [hs.unconsolidated,hs.consolidated] at hm5
  obtain ⟨hin,hout⟩ := foldlM_consolidateSlot_eq hm5
  have hperm := order.ctips_perm acc.unconsolidatedCtips.bySidechain.toList
  have htreasury : ∀ e ∈ order.ctips acc.unconsolidatedCtips.bySidechain.toList,
      (acc.dbs.ctip.get? e.1).toList++e.2 = treasuryOf acc.dbs acc.unconsolidatedCtips e.1 := by
    intro e he
    have hget := FinMap.mem_toList.mp (hperm.subset he)
    rw [treasuryOf,UnconsolidatedCtips.ofSlot,hget,Option.getD_some]
  refine ⟨(order.ctips acc.unconsolidatedCtips.bySidechain.toList).map Prod.fst,?_,?_,?_,?_⟩
  · exact (hperm.map Prod.fst).nodup_iff.mpr (FinMap.nodup_keys _)
  · intro s
    rw [(hperm.map Prod.fst).mem_iff,Ne,← hs.unsettled.inStep.bySidechain_none]
    change s ∈ acc.unconsolidatedCtips.bySidechain.keys ↔ _
    rw [FinMap.mem_keys,FinMap.contains_iff,← Ne,Option.ne_none_iff_exists']
  · rw [hin,List.flatMap_map]
    congr 1
    exact List.flatMap_congr htreasury
  · rw [hout,List.map_map]
    refine List.map_congr_left (fun e he => ?_)
    rw [Function.comp_apply,htreasury e he]

namespace Consolidation

variable (hc : Consolidation h.params.opDrivechain dbs u tx slots) (hu : Unsettled T dbs u)
include hc

theorem outputs (a : SidechainNumber) : ∃ k, h.params.opDrivechain.slotOutputs tx.output.zipIdx a =
    if a ∈ slots then
      [(⟨((treasuryOf dbs u a).map Ctip.value).sum,h.params.opDrivechain.script a⟩,k)] else [] := by
  rw [hc.output]
  exact slotOutputs_scripts _ (fun s => ((treasuryOf dbs u s).map Ctip.value).sum) hc.nodup 0 a

include hu

theorem ctip {s : SidechainNumber} (hs : s ∈ slots) : ∃ c, dbs.ctip.get? s = some c := by
  obtain ⟨c,hmem⟩ := List.exists_mem_of_ne_nil _ ((hc.unsettled s).mp hs)
  exact (FinMap.contains_iff _ _).mp (hu.noCtip _ _ _ (hu.inStep.get?_of_mem hmem)).2.2

variable [Bitcoin]

omit [Bitcoin] in
theorem spends : SpendsTreasuries h dbs u tx slots := by
  refine ⟨hc.nodup,hc.input,fun s hs => ?_,fun s hs => ?_⟩
  · exact hu.tables.ctipActive s ((FinMap.contains_iff _ _).mpr (hc.ctip hu hs))
  · obtain ⟨k,hk⟩ := hc.outputs s
    rw [hk,if_pos hs]
    simp

theorem slotInfo {s : SidechainNumber} {info : TxCtipsInfo} (hi : slotInfo h dbs u tx s = some info) :
    s ∈ slots ∧ info.consolidatedCtipInput.isSome = true ∧ info.unconsolidatedCtipInputs ≠ [] ∧
      info.ctipOutput.value = info.treasuryValueIn := by
  obtain ⟨k,hk⟩ := hc.outputs s
  have hs : s ∈ slots := by
    by_contra hno
    rw [if_neg hno] at hk
    rw [BlockHandler.slotInfo,hk] at hi
    simp at hi
  rw [if_pos hs] at hk
  obtain ⟨info',hi',hcons,hperm,hout⟩ := (hc.spends hu).slotInfo_some hu hs (by rw [hk]; rfl)
  obtain rfl := Option.some.inj (hi.symm.trans hi')
  obtain ⟨c,hctip⟩ := hc.ctip hu hs
  refine ⟨hs,by rw [hcons,hctip]; rfl,?_,?_⟩
  · intro hnil
    rw [hnil] at hperm
    exact (hc.unsettled s).mp hs hperm.nil_eq.symm
  · rw [hout,treasuryValueIn_eq hcons hperm]

theorem handled : ∃ r, h.handleM5M6 dbs u tx = .ok r := by
  obtain ⟨infos,hfill,hget⟩ := fillCtips_succeeds ((hc.spends hu).formed hu (fun a _ => by
    obtain ⟨k,hk⟩ := hc.outputs a
    rw [hk]
    split <;> simp))
  refine handleM5M6_succeeds hfill (.inl (fun s info hi => ⟨none,?_⟩))
  rw [hget] at hi
  obtain ⟨-,-,hne,hvalue⟩ := hc.slotInfo hu hi
  exact ⟨Nat.le_of_eq hvalue.symm,fun _ => hne,by rw [makeDeposit,if_neg (by omega)]⟩

end Consolidation

variable [Bitcoin]

/-- The consolidation is accepted, and no treasury output is left unconsolidated. -/
theorem Consolidation.consolidates
    (hc : Consolidation h.params.opDrivechain acc.dbs acc.unconsolidatedCtips tx slots)
    (hu : Unsettled T acc.dbs acc.unconsolidatedCtips) (hne : slots ≠ [])
    (hnew : ¬ T tx.computeTxid) :
    ∃ acc', h.connectTx accepted parent hash acc tx = .ok acc' ∧
      acc'.unconsolidatedCtips.byOutpoint = .empty := by
  obtain ⟨r,hr⟩ := hc.handled hu
  have hm8 : parseM8Tx tx = none := by
    obtain ⟨s,rest,rfl⟩ := List.exists_cons_of_ne_nil hne
    exact parseM8Tx_of_script hc.output
  obtain ⟨acc',hacc⟩ : ∃ acc', h.connectTx accepted parent hash acc tx = .ok acc' :=
    connectTx_succeeds hm8 hr
  obtain ⟨infos,res,hd⟩ := connectTx_ok hacc
  refine ⟨acc',hacc,?_⟩
  apply FinMap.ext
  intro o
  rw [FinMap.get?_empty,Option.eq_none_iff_forall_ne_some]
  rintro ⟨s,v⟩ ho
  rw [hd.unconsolidated,updateAll_fillCtips hd.fill (hu.new_unconsolidated hnew)
    (fun o e he => (hu.noCtip o e.1 e.2 he).2.1)] at ho
  rcases ho with ⟨hkept,ho⟩ | ⟨info,hi,hn,-⟩
  · -- an output of the block that is not consolidated is spent
    have hmem := (hu.inStep.listed o s v).mp ho
    refine hkept ?_
    rw [hc.input,spendAll,List.map_map]
    refine List.mem_map.mpr ⟨⟨o,v⟩,List.mem_flatMap.mpr ⟨s,?_,?_⟩,rfl⟩
    · exact (hc.unsettled s).mpr (List.ne_nil_of_mem hmem)
    · exact List.mem_append_right _ hmem
  · obtain ⟨-,hsome,-,-⟩ := hc.slotInfo hu hi
    rw [isNewCtip,hsome] at hn
    cases hn

end Consolidation

section Suffix

variable [Bitcoin] {params : NetworkParams} {T : Txid → Prop} {acc acc' : TxState} {ctips : Ctips}
  {order : VisitOrder} {accepted : BmmCommitments} {parent hash : BlockHash}
  {suffix : List Transaction}

/-- The transactions at the end of a block are accepted, and leave no treasury output
unconsolidated, exactly if the bundles that they pay are acceptable. -/
theorem suffix_accepted_iff {l : List (SidechainNumber × BundleProposals)}
    (hsuffix : suffixTxsForProposals order l ctips params = .ok suffix)
    (hl : (l.map Prod.fst).Nodup)
    (hm : ∀ e ∈ l, ∀ m ∈ approved params.thresholds.withdrawalBundleInclusionThreshold e.2,
      ∃ blinded, BlindedM6.tryFrom blinded = .ok m)
    (hs : InSync T acc ctips) (hnew : NewTxs T suffix) :
    (∃ acc', suffix.foldlM ((BlockHandler.new params).connectTx accepted parent hash) acc = .ok acc' ∧
      acc'.unconsolidatedCtips.byOutpoint = .empty) ↔
      ∀ e ∈ l, Redeemable (.new params) acc.dbs.pendingM6ids ctips e := by
  obtain ⟨txs,ctips',hpay,hend⟩ := suffixTxsForProposals_ok.mp hsuffix
  have hnew₁ : NewTxs T txs := by
    rcases hend with ⟨-,rfl⟩ | ⟨-,m5,-,rfl⟩
    · exact hnew
    · exact (newTxs_append hnew).1
  obtain ⟨hiff,hsync⟩ : ((∃ acc',
      txs.foldlM ((BlockHandler.new params).connectTx accepted parent hash) acc = .ok acc') ↔
        ∀ e ∈ l, Redeemable (.new params) acc.dbs.pendingM6ids ctips e) ∧ ∀ acc',
      txs.foldlM ((BlockHandler.new params).connectTx accepted parent hash) acc = .ok acc' →
        InSync (fun t => T t ∨ t ∈ txs.map Transaction.computeTxid) acc' ctips' :=
    PaysAll.accepted_iff hpay rfl hl hm hs hnew₁
  rw [← hiff]
  rcases hend with ⟨hempty,rfl⟩ | ⟨hleft,m5,hm5,rfl⟩
  · constructor
    · rintro ⟨acc',hf,-⟩
      exact ⟨acc',hf⟩
    · rintro ⟨acc',hf⟩
      refine ⟨acc',hf,?_⟩
      rw [← (hsync acc' hf).unconsolidated]
      exact (FinMap.isEmpty_iff _).mp hempty
  · have hnew₂ := (newTxs_append hnew).2
    simp only [List.foldlM_append,Fallible.bind_ok]
    constructor
    · rintro ⟨acc',⟨acc₁,h₁,-⟩,-⟩
      exact ⟨acc₁,h₁⟩
    · rintro ⟨acc₁,h₁⟩
      have hs₁ := hsync acc₁ h₁
      obtain ⟨slots,hc⟩ := hs₁.consolidation hm5
      have hne : slots ≠ [] := by
        rintro rfl
        have hnone : acc₁.unconsolidatedCtips.byOutpoint = .empty := by
          apply FinMap.ext
          intro o
          rw [FinMap.get?_empty,Option.eq_none_iff_forall_ne_some]
          rintro ⟨s,v⟩ ho
          have hmem := (hs₁.unsettled.inStep.listed o s v).mp ho
          exact absurd ((hc.unsettled s).mpr (List.ne_nil_of_mem hmem)) List.not_mem_nil
        rw [hs₁.unconsolidated,UnconsolidatedCtips.isEmpty,(FinMap.isEmpty_iff _).mpr hnone] at hleft
        cases hleft
      obtain ⟨acc',h₂,hempty⟩ : ∃ acc', (BlockHandler.new params).connectTx accepted parent hash acc₁ m5 =
          .ok acc' ∧ acc'.unconsolidatedCtips.byOutpoint = .empty :=
        hc.consolidates hs₁.unsettled hne (newTxs_cons hnew₂).1
      exact ⟨acc',⟨acc₁,h₁,by simp only [List.foldlM_cons,h₂,Fallible.ok_bind]; rfl⟩,hempty⟩

end Suffix

section Block

variable [Bitcoin] {h : BlockHandler} {V : Chain → Block → Prop} {stale : Prop} {dbs dbs' : Dbs}
  {c : Chain} {b : Block} {coinbase : Transaction} {txs : List Transaction}

theorem connectTx_hash {accepted : BmmCommitments} {parent hash hash' : BlockHash}
    (acc : TxState) (tx : Transaction) (acc' : TxState) :
    h.connectTx accepted parent hash acc tx = .ok acc' ↔
      h.connectTx accepted parent hash' acc tx = .ok acc' := by
  simp only [connectTx,Fallible.bind_ok,Fallible.mapError_ok]

/-- The header of a block on top of the tip can be stored, and nothing else changes. -/
theorem Synced.storeHeader (hs : Synced h V stale dbs c)
    (hfits : dbs.blockHashes.HeaderFits b.header c.length)
    (hparent : b.header.prevBlockhash = c.parentHash) :
    ∃ dbs', BlockHandler.storeHeader dbs b = some dbs' ∧ Synced h V stale dbs' c ∧
      dbs'.blockHashes.header.get? b.blockHash = some b.header ∧
      dbs'.toConsensusDbs = dbs.toConsensusDbs ∧ dbs'.blockHashes.diff = dbs.blockHashes.diff := by
  unfold BlockHandler.storeHeader
  split
  · rename_i hhas
    obtain ⟨hd,hhd⟩ := (FinMap.contains_iff _ _).mp hhas
    have hsame := BlockHashDbs.eq_of_known hhd hfits.stored
    exact ⟨dbs,rfl,hs,by rw [hhd,hsame],rfl,rfl⟩
  · have hheight : newHeight dbs.blockHashes b.header.prevBlockhash = some c.length := by
      rw [newHeight,hparent]
      cases c with
      | nil => rfl
      | cons b' c =>
        have hne : parentHash (b'::c) ≠ allZeros := b'.header.blockHash_ne
        rw [if_neg hne,parentHash_cons,BlockHashDbs.linked_height hs.headers hs.linked]
        rfl
    rw [hheight]
    refine ⟨_,rfl,hs.header hfits,?_,rfl,rfl⟩
    rw [BlockHashDbs.putHeader_header]
    exact if_pos rfl

theorem Synced.connects_iff (hs : Synced h V stale dbs c)
    (hh : dbs.blockHashes.header.get? b.blockHash = some b.header)
    (hparent : b.header.prevBlockhash = c.parentHash) (htx : b.txdata = coinbase::txs) :
    (∃ r, h.connectBlock dbs b = .ok r) ↔
      ∃ res, h.processBlock dbs.toConsensusDbs c.length b.header.prevBlockhash b.blockHash
        (dbs.blockHashes.diff.get? b.header.prevBlockhash) coinbase txs = .ok res ∧
        res.unconsolidatedCtips.byOutpoint = .empty := by
  have hheight := BlockHashDbs.linked_height hs.headers ⟨hh,hparent,hs.linked⟩
  constructor
  · rintro ⟨⟨event,dbs'⟩,hc⟩
    obtain ⟨n,coinbase',txs',res,hp,hempty,-⟩ := connectBlock_ok.mp hc
    obtain ⟨rfl,rfl⟩ := List.cons.inj (htx.symm.trans hp.txdata)
    obtain rfl := Option.some.inj (hheight.symm.trans hp.height)
    exact ⟨res,hp.processed,hempty⟩
  · rintro ⟨res,hres,hempty⟩
    have htip : b.header.prevBlockhash = dbs.currentChainTip.getD allZeros := by
      rw [hparent,hs.tip]
      rfl
    obtain ⟨⟨event,dbs'⟩,hrec⟩ : ∃ r, recordBlock { dbs with toConsensusDbs := res.dbs }
        (headerInfoOf b c.length) res.blockInfo res.diff = .ok r :=
      hs.recordBlock_succeeds rfl hh hparent
    exact ⟨(event,dbs'),connectBlock_ok.mpr
      ⟨c.length,coinbase,txs,res,⟨htip,hheight,htx,hres⟩,hempty,hrec⟩⟩

theorem processBlock_iff {t t₂ : ConsensusDbs} {n : ℕ} {parent hash : BlockHash}
    {prevDiff : Option Diff.Block} {accepted : BmmCommitments} {events : List BlockEvent}
    {d : Diff.Coinbase} (P : UnconsolidatedCtips → Prop) (hn : h.params.bip300ActivationHeight ≤ n)
    (hc : h.connectCoinbase t n parent prevDiff coinbase = .ok (t₂,accepted,events,d)) :
    (∃ res, h.processBlock t n parent hash prevDiff coinbase txs = .ok res ∧
      P res.unconsolidatedCtips) ↔
    ∃ acc, txs.foldlM (h.connectTx accepted parent hash)
        ⟨t₂.activeSidechains,.default,[],events,[]⟩ = .ok acc ∧ P acc.unconsolidatedCtips := by
  simp only [processBlock,if_neg (Nat.not_lt.mpr hn),hc,Fallible.ok_bind,Fallible.bind_ok,
    Fallible.pure_ok]
  constructor
  · rintro ⟨res,⟨acc,hacc,rfl⟩,hP⟩
    exact ⟨acc,hacc,hP⟩
  · rintro ⟨acc,hacc,hP⟩
    exact ⟨_,⟨acc,hacc,rfl⟩,hP⟩

end Block

section Bundles

variable {dbs : Dbs} {stored : FinMap SidechainNumber (List (M6id × BlindedM6))}
  {bundles : FinMap SidechainNumber BundleProposals} {used : List SidechainNumber}

/-- All stored bundles of the used slots are read. -/
theorem getBundleProposals_complete (hb : getBundleProposals dbs stored used = .ok bundles)
    {s : SidechainNumber} {ms : List (M6id × BlindedM6)} {p : PendingM6ids}
    (hms : stored.get? s = some ms) (hp : dbs.activeSidechains.pendingM6ids.get? s = some p)
    (hused : s ∈ used) (hne : ms ≠ []) :
    bundles.get? s = some (ms.map (fun m => (m.1,m.2,p.get? m.1))) := by
  have hnodup : (stored.toList.map Prod.fst).Nodup := FinMap.nodup_keys stored
  refine Fallible.foldlM_prefix (fun done res => (s,ms) ∈ done →
    res.get? s = some (ms.map (fun m => (m.1,m.2,p.get? m.1)))) hb (by simp) ?_
    (FinMap.mem_toList.mpr hms)
  rintro done ⟨s',ms'⟩ rest res res' hsplit hI hstep hmem
  rw [hsplit,List.map_append,List.map_cons,List.nodup_append,List.nodup_cons] at hnodup
  rcases List.mem_append.mp hmem with hmem | hmem
  · have hother : s' ≠ s := by
      intro he
      exact hnodup.2.2 s (List.mem_map.mpr ⟨_,hmem,rfl⟩) s' (List.mem_cons_self ..) he.symm
    have hkeep := hI hmem
    simp only at hstep
    split at hstep
    · obtain rfl := Except.ok.inj hstep
      exact hkeep
    · obtain ⟨p',-,hstep⟩ := Fallible.bind_ok.mp hstep
      rw [Fallible.pure_ok] at hstep
      subst hstep
      split
      · exact hkeep
      · rw [FinMap.get?_insert_ne _ _ hother,hkeep]
  · obtain ⟨rfl,rfl⟩ := Prod.mk.inj (List.mem_singleton.mp hmem)
    simp only [hused,not_true,if_false] at hstep
    obtain ⟨p',hp',hstep⟩ := Fallible.bind_ok.mp hstep
    rw [Database.get_ok,hp] at hp'
    obtain rfl := Option.some.inj hp'
    rw [Fallible.pure_ok] at hstep
    subst hstep
    have hsome : (ms.map (fun m => (m.1,m.2,p.get? m.1))).isEmpty = false := by
      rw [List.isEmpty_map]
      simpa using hne
    simp only [hsome,Bool.false_eq_true,if_false,FinMap.get?_insert_self]

/-- Which of the stored bundles of a slot are paid after the given state. -/
def stillPending (threshold : UInt16) (state : WithdrawalState) (s : SidechainNumber)
    (ms : List (M6id × BlindedM6)) (p : PendingM6ids) : SidechainNumber × BundleProposals :=
  keepPayable threshold state.pendingWithdrawals (s,ms.map (fun m => (m.1,m.2,p.get? m.1)))

variable [Bitcoin]

/-- The bundles that all slots pay after the given state are acceptable. -/
def AllRedeemable (params : NetworkParams) (dbs : Dbs)
    (stored : FinMap SidechainNumber (List (M6id × BlindedM6))) (state : WithdrawalState) : Prop :=
  ∀ s ms p, stored.get? s = some ms → dbs.activeSidechains.pendingM6ids.get? s = some p →
    Redeemable (.new params) state.pendingWithdrawals state.ctips
      (stillPending params.thresholds.withdrawalBundleInclusionThreshold state s ms p)

end Bundles

section Main

variable [Bitcoin] {params : NetworkParams} {V : Chain → Block → Prop} {stale : Prop} {dbs : Dbs}
  {c : Chain} {stored : FinMap SidechainNumber (List (M6id × BlindedM6))} {order : VisitOrder}
  {state : WithdrawalState} {suffix : List Transaction}

def BundlesAccepted (stored : FinMap SidechainNumber (List (M6id × BlindedM6))) : Prop :=
  ∀ s ms, stored.get? s = some ms → ∀ m ∈ ms, ∃ blinded, BlindedM6.tryFrom blinded = .ok m.2

omit [Bitcoin] in
theorem mem_approved {threshold : UInt16} {m6ids : BundleProposals} {m : BlindedM6}
    (h : m ∈ approved threshold m6ids) : ∃ e ∈ m6ids, e.2.1 = m := by
  obtain ⟨e,he,hm⟩ := List.mem_filterMap.mp h
  refine ⟨e,he,?_⟩
  split at hm
  · cases hm
  · split at hm
    · cases hm
    · exact Option.some.inj hm

/-- The transactions that the producer makes for the end of a block are accepted exactly if
all bundles that they pay are acceptable. -/
theorem generated_accepted_iff {T : Txid → Prop} {acc : TxState} {accepted : BmmCommitments}
    {parent hash : BlockHash} (hw : dbs.toConsensusDbs.Wf) (hstored : BundlesAccepted stored)
    (hs : generateSuffixTxs order params dbs stored ⟨acc.dbs.ctip,acc.unconsolidatedCtips⟩
      (some acc.dbs.pendingM6ids) = .ok suffix)
    (hu : Unsettled T acc.dbs acc.unconsolidatedCtips) (hnew : NewTxs T suffix) :
    (∃ acc', suffix.foldlM ((BlockHandler.new params).connectTx accepted parent hash) acc = .ok acc' ∧
      acc'.unconsolidatedCtips.byOutpoint = .empty) ↔
      AllRedeemable params dbs stored
        ⟨⟨acc.dbs.ctip,acc.unconsolidatedCtips⟩,acc.dbs.pendingM6ids⟩ := by
  obtain ⟨active,bundles,hactive,hbundles,hs⟩ := generateSuffixTxs_ok.mp hs
  have hperm := order.proposals_perm bundles.toList
  have hkeys : (((order.proposals bundles.toList).map (keepPayable
      params.thresholds.withdrawalBundleInclusionThreshold acc.dbs.pendingM6ids)).map Prod.fst).Nodup := by
    rw [List.map_map]
    exact (hperm.map Prod.fst).nodup_iff.mpr (FinMap.nodup_keys bundles)
  have hm : ∀ e ∈ (order.proposals bundles.toList).map (keepPayable
      params.thresholds.withdrawalBundleInclusionThreshold acc.dbs.pendingM6ids),
      ∀ m ∈ approved params.thresholds.withdrawalBundleInclusionThreshold e.2,
        ∃ blinded, BlindedM6.tryFrom blinded = .ok m := by
    intro e he m hm
    obtain ⟨⟨s,m6ids⟩,hmem,rfl⟩ := List.mem_map.mp he
    obtain ⟨ms,p,hms,-,rfl⟩ := getBundleProposals_get? hbundles
      (FinMap.mem_toList.mp (hperm.subset hmem))
    obtain ⟨x,hx,rfl⟩ := mem_approved ((approved_keepPayable _ _ _).subset hm)
    obtain ⟨m',hm',rfl⟩ := List.mem_map.mp hx
    exact hstored s ms hms m' hm'
  rw [suffix_accepted_iff hs hkeys hm ⟨hu,rfl,rfl⟩ hnew]
  constructor
  · intro hall s ms p hms hp
    by_cases hne : ms = []
    · subst hne
      have hnil : paidBundles ⟨acc.dbs.ctip,acc.unconsolidatedCtips⟩ s [] = [] := paidBundles_nil
      change Acceptable _ _ _ _ (paidBundles ⟨acc.dbs.ctip,acc.unconsolidatedCtips⟩ s [])
      rw [hnil]
      exact acceptable_nil
    · have hused : s ∈ usedSlots active := by
        rw [mem_usedSlots hw hactive,← hw.tables.pending,FinMap.contains_iff]
        exact ⟨p,hp⟩
      have hget := getBundleProposals_complete hbundles hms hp hused hne
      exact hall _ (List.mem_map_of_mem (hperm.mem_iff.mpr (FinMap.mem_toList.mpr hget)))
  · intro hall e he
    obtain ⟨⟨s,m6ids⟩,hmem,rfl⟩ := List.mem_map.mp he
    obtain ⟨ms,p,hms,hp,rfl⟩ := getBundleProposals_get? hbundles
      (FinMap.mem_toList.mp (hperm.subset hmem))
    exact hall s ms p hms hp

theorem allRedeemable_of_noCtip (hnone : state.ctips.consolidated = .empty) :
    AllRedeemable params dbs stored state := by
  intro s ms p _ _
  have hnil : ∀ e, paidBundles state.ctips s e = [] := by
    intro e
    simp [paidBundles,hnone,FinMap.contains]
  rw [Redeemable]
  change Acceptable _ _ _ _ (paidBundles state.ctips s _)
  rw [hnil]
  exact acceptable_nil

theorem connectBlockCommit_accept {h : BlockHandler} {dbs dbs₁ : Dbs} {b : Block}
    (hst : storeHeader dbs b = some dbs₁) :
    (∃ removed dbs', h.connectBlockCommit dbs b = .ok (.accept removed,dbs')) ↔
      ∃ r, h.connectBlock dbs₁ b = .ok r := by
  simp only [connectBlockCommit,hst]
  cases h.connectBlock dbs₁ b with
  | ok r => exact iff_of_true ⟨_,_,rfl⟩ ⟨r,rfl⟩
  | error e =>
    refine iff_of_false ?_ (by simp)
    rintro ⟨removed,dbs',he⟩
    simp only at he
    split at he <;> simp at he

/-- A block that is accepted up to its treasury outputs is accepted with the transactions that
the producer makes for its end exactly if the bundles that these pay are acceptable: they are
different, each of them is pending with more votes than the threshold when its fee output is
written anew, and none of their payouts is a treasury output of an active slot. -/
theorem completed_accepted_iff (params : NetworkParams)
    (stored : FinMap SidechainNumber (List (M6id × BlindedM6))) (order : VisitOrder) (dbs : Dbs)
    (c : Chain) (block completed : Block) (state : WithdrawalState) (suffix : List Transaction)
    (hstored : BundlesAccepted stored) (hfresh : Fresh V) (hr : Reach (.new params) V stale dbs c)
    (hblock : dbs.blockHashes.HeaderFits block.header c.length)
    (hcompleted : dbs.blockHashes.HeaderFits completed.header c.length)
    (hstate : (BlockHandler.new params).getWithdrawalStateAfter dbs block = .ok (some state))
    (hs : generateSuffixTxs order params dbs stored state.ctips (some state.pendingWithdrawals) =
      .ok suffix)
    (hparent : completed.header.prevBlockhash = block.header.prevBlockhash)
    (htx : completed.txdata = block.txdata++suffix) (hnew : FreshTxids c completed) :
    (∃ removed dbs', (BlockHandler.new params).connectBlockCommit dbs completed =
      .ok (.accept removed,dbs')) ↔ AllRedeemable params dbs stored state := by
  have hsync := hr.synced
  obtain ⟨hw,hindex⟩ := hsync.grown.wf
  obtain ⟨hidx,hmade⟩ := hindex hfresh
  obtain ⟨dbs₀,info,dbs₀',hst₀,hp,rfl⟩ := getWithdrawalStateAfter_some hstate
  obtain ⟨n,coinbase,txs,res,hacc,rfl,rfl⟩ := partialConnectBlock_ok.mp hp
  have hpar : block.header.prevBlockhash = c.parentHash := by
    rw [hacc.parent,(storeHeader_mempool hst₀).1,hsync.tip]
    rfl
  obtain ⟨dbs₀',hst₀',hsync₀,hh₀,ht₀,hd₀⟩ := hsync.storeHeader hblock hpar
  obtain rfl := Option.some.inj (hst₀.symm.trans hst₀')
  obtain rfl := Option.some.inj (hacc.height.symm.trans
    (BlockHashDbs.linked_height hsync₀.headers ⟨hh₀,hpar,hsync₀.linked⟩))
  obtain ⟨dbs₁,hst₁,hsync₁,hh₁,ht₁,hd₁⟩ := hsync.storeHeader hcompleted (hparent.trans hpar)
  have hdata : completed.txdata = coinbase::(txs++suffix) := by rw [htx,hacc.txdata]; rfl
  rw [connectBlockCommit_accept hst₁,hsync₁.connects_iff hh₁ (hparent.trans hpar) hdata,ht₁,hd₁,hparent]
  have hprocessed := hacc.processed
  rw [ht₀,hd₀] at hprocessed
  rcases processBlock_ok hprocessed with
    ⟨hlow,rfl⟩ | ⟨hhigh,scan,t₁,t₂,accepted,events,d,acc,hc,hdone,hf,rfl⟩
  · -- below the activation height there are no treasuries
    refine iff_of_true ⟨_,by rw [processBlock,if_pos hlow],rfl⟩ (allRedeemable_of_noCtip ?_)
    have hempty := hsync.grown.active_empty hfresh (Nat.le_of_lt hlow)
    simp only [hempty]
    rfl
  · rw [processBlock_iff (fun u => u.byOutpoint = .empty) hhigh hc,List.foldlM_append]
    rw [FreshTxids,hdata,List.tail_cons] at hnew
    obtain ⟨hnew₁,hnew₂⟩ := newTxs_append hnew
    obtain ⟨-,hw₂⟩ := hdone.wf hw
    obtain ⟨hsame,-⟩ := hdone.frame hw
    have hstart : Unsettled (fun x => x ∈ c.txids) t₂.activeSidechains .default :=
      ⟨hw₂.tables,hsame.indexed hidx,hsame.madeBy hmade,UnconsolidatedCtips.inStep_default,
        fun o s v ho => by simp [UnconsolidatedCtips.default] at ho⟩
    have hbefore : txs.foldlM ((BlockHandler.new params).connectTx accepted
        block.header.prevBlockhash completed.blockHash)
        ⟨t₂.activeSidechains,.default,[],events,[]⟩ = .ok acc :=
      (Fallible.foldlM_congr connectTx_hash).mp hf
    rw [← generated_accepted_iff hw hstored hs (hstart.steps hf hnew₁) hnew₂]
    simp only [Fallible.bind_ok]
    constructor
    · rintro ⟨acc',⟨acc₁,h₁,h₂⟩,hempty⟩
      obtain rfl := Except.ok.inj (hbefore.symm.trans h₁)
      exact ⟨acc',h₂,hempty⟩
    · rintro ⟨acc',h₂,hempty⟩
      exact ⟨acc',⟨acc,hbefore,h₂⟩,hempty⟩

end Main

section Sample

open Sample TreasurySample ReserveSample

namespace CompletionSample

def complete (block : Block) (suffix : List Transaction) : Block :=
  ⟨{ block.header with merkleRoot := 1 },block.txdata++suffix⟩

/-- A bundle that pays 30, with a fee of 10 in a push that says its length in a byte of its
own. -/
def longFee : BlindedM6 :=
  ⟨10,30,⟨2,0,[],[⟨0,0x6a::0x4c::8::toBeBytes 10⟩,⟨30,[0x51]⟩]⟩⟩

def storedLong : FinMap SidechainNumber (List (M6id × BlindedM6)) :=
  FinMap.empty.insert 0 [(longFee.computeM6id,longFee)]

def contentsLong : List (List Script × List Transaction) :=
  [([[]],[]),([m1Script 0 description],[])]++
  List.replicate 6 ([m2Script 0 (sha256d description)],[])++
  [([],[deposit]),([m3Script 0 longFee.computeM6id],[])]++
  List.replicate 5 ([m4Script [0]],[])

def blocksLong : List Block := blocksOn allZeros 0 contentsLong

def runLong : Dbs × Chain := Call.runAll handler UtxoValid (Call.connectAll blocksLong)

theorem reach_runLong : Reach handler UtxoValid False runLong.1 runLong.2 :=
  Call.reach_runAll _ (by decide)

def nextLong : Block := blockOn ((blocksLong.getLast?.map Block.blockHash).getD allZeros) 15 [] []

def accepts (dbs : Dbs) (block : Block) : Bool :=
  match handler.connectBlockCommit dbs block with
  | .ok (.accept _,_) => true
  | _ => false

theorem accepts_iff {dbs : Dbs} {block : Block} : accepts dbs block = true ↔
    ∃ removed dbs', handler.connectBlockCommit dbs block = .ok (.accept removed,dbs') := by
  unfold accepts
  split
  · rename_i removed dbs' he
    exact iff_of_true rfl ⟨removed,dbs',he⟩
  · rename_i hno
    exact iff_of_false (by simp) (fun ⟨removed,dbs',he⟩ => hno removed dbs' he)

end CompletionSample

open CompletionSample

theorem completed_accepted_iff_sample : ∃ state suffix,
    handler.getWithdrawalStateAfter run.1 unfinished = .ok (some state) ∧
    generateSuffixTxs inOrder handler.params run.1 stored state.ctips
      (some state.pendingWithdrawals) = .ok suffix ∧ suffix.length = 1 ∧
    (∃ removed dbs', handler.connectBlockCommit run.1 (complete unfinished suffix) =
      .ok (.accept removed,dbs')) ∧ AllRedeemable handler.params run.1 stored state := by
  have hmap : (suffixOf run.1 stored unfinished).map (fun r =>
      (r.2.length,accepts run.1 (complete unfinished r.2),
        decide (FreshTxids run.2 (complete unfinished r.2)))) = some (1,true,true) := by decide +kernel
  obtain ⟨⟨state,suffix⟩,hsuffix,hr⟩ := Option.map_eq_some_iff.mp hmap
  simp only [Prod.mk.injEq,decide_eq_true_eq] at hr
  obtain ⟨hlen,haccepts,hnew⟩ := hr
  obtain ⟨hstate,hs⟩ := suffixOf_some hsuffix
  have hstored : BundlesAccepted stored := by
    intro s ms hms m hm
    rw [stored,FinMap.get?_insert] at hms
    split at hms
    · obtain rfl := Option.some.inj hms
      obtain rfl := List.mem_singleton.mp hm
      exact ⟨⟨2,0,[],[OpDrivechain.feeOutput 10,⟨30,[0x51]⟩]⟩,by decide +kernel⟩
    · simp at hms
  have hfits : run.1.blockHashes.HeaderFits (complete unfinished []).header run.2.length := by
    decide +kernel
  have hiff := completed_accepted_iff handler.params stored inOrder run.1 run.2 unfinished
    (complete unfinished suffix) state suffix hstored fresh_utxoValid reach_run (by decide +kernel)
    hfits hstate hs rfl rfl hnew
  have hok := accepts_iff.mp haccepts
  exact ⟨state,suffix,hstate,hs,hlen,hok,hiff.mp hok⟩

/-- A bundle whose fee is pushed in a longer form is accepted, stored and voted for. The
withdrawal that the producer makes of it is not found by the validator, which rejects the
block. -/
theorem completed_longFee_rejected : Reach handler UtxoValid False runLong.1 runLong.2 ∧
    BlindedM6.tryFrom longFee.tx = .ok longFee ∧ ∃ state suffix,
    handler.getWithdrawalStateAfter runLong.1 nextLong = .ok (some state) ∧
    generateSuffixTxs inOrder handler.params runLong.1 storedLong state.ctips
      (some state.pendingWithdrawals) = .ok suffix ∧
    runLong.1.blockHashes.HeaderFits nextLong.header runLong.2.length ∧
    runLong.1.blockHashes.HeaderFits (complete nextLong suffix).header runLong.2.length ∧
    FreshTxids runLong.2 (complete nextLong suffix) ∧
    ¬ ∃ removed dbs', handler.connectBlockCommit runLong.1 (complete nextLong suffix) =
      .ok (.accept removed,dbs') := by
  have hmap : (suffixOf runLong.1 storedLong nextLong).map (fun r =>
      (accepts runLong.1 (complete nextLong r.2),
        decide (FreshTxids runLong.2 (complete nextLong r.2)))) = some (false,true) := by decide +kernel
  obtain ⟨⟨state,suffix⟩,hsuffix,hr⟩ := Option.map_eq_some_iff.mp hmap
  simp only [Prod.mk.injEq,decide_eq_true_eq] at hr
  obtain ⟨hrejects,hnew⟩ := hr
  obtain ⟨hstate,hs⟩ := suffixOf_some hsuffix
  have hfits : runLong.1.blockHashes.HeaderFits (complete nextLong []).header runLong.2.length := by
    decide +kernel
  refine ⟨reach_runLong,by decide +kernel,state,suffix,hstate,hs,by decide +kernel,hfits,hnew,
    fun hok => ?_⟩
  rw [accepts_iff.mpr hok] at hrejects
  cases hrejects

end Sample

end Bip300301Enforcer
