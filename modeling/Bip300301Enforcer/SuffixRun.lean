import Bip300301Enforcer.ReservedWeight
import Bip300301Enforcer.SuffixRead

/-! The validator on the transactions that the producer ends a block with: it accepts them
exactly if it finds the bundles that they pay. -/
namespace Bip300301Enforcer
open Lib BlockHandler ActiveSidechainDbs

namespace BlockProducer

/-- The bundles that a treasury suffices for, one after the other. -/
def affordable : ℕ → List BlindedM6 → List BlindedM6
  | _, [] => []
  | value, m::rest =>
    if m.demand ≤ value then m::affordable (value-m.demand) rest else affordable value rest

/-- The bundles that the treasury of a slot pays, if there is one. -/
def paidBundles (ctips : Ctips) (s : SidechainNumber) (l : List BlindedM6) : List BlindedM6 :=
  if ctips.consolidated.contains s then affordable (ctips.treasury s) l else []

end BlockProducer

section Treasury

variable [Bitcoin]

namespace Ctips

variable {ctips : Ctips} {s : SidechainNumber} {c : Ctip}

theorem treasury_afterM6 (hc : ctips.consolidated.get? s = some c) (op : OpDrivechain) (m : BlindedM6) :
    (ctips.afterM6 op s (c::ctips.unconsolidatedOf s) m).treasury s = ctips.treasury s-m.demand := by
  have hget : (ctips.afterM6 op s (c::ctips.unconsolidatedOf s) m).consolidated.get? s =
      some ⟨⟨(m.m6Tx op s (c::ctips.unconsolidatedOf s)).computeTxid,0⟩,
        ((c::ctips.unconsolidatedOf s).map Ctip.value).sum-m.demand⟩ := FinMap.get?_insert_self _ _ _
  have hnone : (ctips.afterM6 op s (c::ctips.unconsolidatedOf s) m).unconsolidatedOf s = [] := by
    rw [unconsolidatedOf,UnconsolidatedCtips.getBySidechain,afterM6,
      UnconsolidatedCtips.removeSidechain_get?,if_pos rfl]
    rfl
  rw [treasury_of_ctip hc,treasury_of_ctip hget,hnone]
  simp

def SameSlot (ctips' ctips : Ctips) (a : SidechainNumber) : Prop :=
  ctips'.consolidated.get? a = ctips.consolidated.get? a ∧
    ctips'.unconsolidatedOf a = ctips.unconsolidatedOf a

theorem sameSlot_afterM6 {a : SidechainNumber} (ha : s ≠ a) (ctips : Ctips) (op : OpDrivechain)
    (inputs : List Ctip) (m : BlindedM6) : (ctips.afterM6 op s inputs m).SameSlot ctips a := by
  constructor
  · rw [afterM6,FinMap.get?_insert_ne _ _ ha]
  · rw [unconsolidatedOf,afterM6,UnconsolidatedCtips.getBySidechain,
      UnconsolidatedCtips.removeSidechain_get?,if_neg ha]
    rfl

end Ctips

namespace BlockProducer

variable {ctips ctips' : Ctips} {s a : SidechainNumber} {c : Ctip} {op : OpDrivechain}

omit [Bitcoin] in
theorem paidBundles_congr (h : ctips'.SameSlot ctips a) (l : List BlindedM6) :
    paidBundles ctips' a l = paidBundles ctips a l := by
  have hhas : ctips'.consolidated.contains a = ctips.consolidated.contains a := by
    rw [FinMap.contains,FinMap.contains,h.1]
  have htreasury : ctips'.treasury a = ctips.treasury a := by
    rw [Ctips.treasury,Ctips.treasury,h.1,h.2]
  rw [paidBundles,paidBundles,hhas,htreasury]

omit [Bitcoin] in
@[simp] theorem paidBundles_nil : paidBundles ctips s [] = [] := by
  simp [paidBundles,affordable]

theorem paidBundles_cons (op : OpDrivechain) (hc : ctips.consolidated.get? s = some c)
    (m : BlindedM6) (l : List BlindedM6) : paidBundles ctips s (m::l) =
      if m.demand ≤ ((c::ctips.unconsolidatedOf s).map Ctip.value).sum then
        m::paidBundles (ctips.afterM6 op s (c::ctips.unconsolidatedOf s) m) s l
      else paidBundles ctips s l := by
  have hafter : (ctips.afterM6 op s (c::ctips.unconsolidatedOf s) m).consolidated.contains s = true := by
    rw [Ctips.afterM6,FinMap.contains_insert]
    simp
  have hhas : ctips.consolidated.contains s = true := (FinMap.contains_iff _ _).mpr ⟨c,hc⟩
  simp only [paidBundles,hhas,hafter,if_true,affordable,Ctips.treasury_afterM6 hc]
  rw [Ctips.treasury_of_ctip hc]

theorem Pays.sameSlot {l : List BlindedM6} {txs : List Transaction} (h : Pays op s l ctips txs ctips')
    (ha : s ≠ a) : ctips'.SameSlot ctips a := by
  induction h with
  | done => exact ⟨rfl,rfl⟩
  | noTreasury missing => exact ⟨rfl,rfl⟩
  | skipped _ _ _ _ ih => exact ih
  | @paid m rest ctips ctips' c txs _ _ _ _ ih =>
    have hone := Ctips.sameSlot_afterM6 ha ctips op (c::ctips.unconsolidatedOf s) m
    exact ⟨ih.1.trans hone.1,ih.2.trans hone.2⟩

end BlockProducer

/-- The bundles with their fee outputs written anew can be paid one after the other: they
are different, each of them is pending with enough votes, and none of their payouts is read
as a treasury output. -/
structure Acceptable (op : OpDrivechain) (threshold : UInt16)
    (pending : FinMap SidechainNumber PendingM6ids) (s : SidechainNumber) (paid : List BlindedM6) :
    Prop where
  distinct : (paid.map (fun m => m.reblinded.computeTxid)).Nodup
  payable : ∀ m ∈ paid, Payable threshold pending s m.reblinded.computeTxid
  payouts : ∀ m ∈ paid, NoTreasuryPayout op pending m

variable {op : OpDrivechain} {threshold : UInt16} {pending pending' : FinMap SidechainNumber PendingM6ids}
  {s : SidechainNumber} {p : PendingM6ids} {m : BlindedM6} {paid : List BlindedM6}

theorem acceptable_nil : Acceptable op threshold pending s [] := ⟨.nil,by simp,by simp⟩

theorem Acceptable.congr (hs : pending'.get? s = pending.get? s)
    (hall : ∀ a, pending'.contains a = pending.contains a) :
    Acceptable op threshold pending' s paid ↔ Acceptable op threshold pending s paid := by
  have hpay : ∀ m, Payable threshold pending' s m ↔ Payable threshold pending s m := by
    intro m
    rw [Payable,Payable,hs]
  have hout : ∀ m, NoTreasuryPayout op pending' m ↔ NoTreasuryPayout op pending m := by
    intro m
    simp only [NoTreasuryPayout,hall]
  constructor
  · rintro ⟨hd,hp,ho⟩
    exact ⟨hd,fun m hm => (hpay _).mp (hp m hm),fun m hm => (hout m).mp (ho m hm)⟩
  · rintro ⟨hd,hp,ho⟩
    exact ⟨hd,fun m hm => (hpay _).mpr (hp m hm),fun m hm => (hout m).mpr (ho m hm)⟩

omit [Bitcoin] in
theorem contains_remove (hp : pending.get? s = some p) (id : M6id) (a : SidechainNumber) :
    (pending.insert s (p.remove id)).contains a = pending.contains a := by
  rw [FinMap.contains_insert]
  by_cases ha : s = a
  · subst ha
    simp [FinMap.contains,hp]
  · simp [ha]

omit [Bitcoin] in
theorem payable_remove (hp : pending.get? s = some p) (id id' : M6id) :
    Payable threshold (pending.insert s (p.remove id)) s id' ↔
      id' ≠ id ∧ Payable threshold pending s id' := by
  simp only [Payable,FinMap.get?_insert_self,hp,Option.some.injEq]
  constructor
  · rintro ⟨_,info,rfl,hi,hv⟩
    rw [OrderMap.get?_remove] at hi
    split at hi
    · cases hi
    · rename_i hne
      exact ⟨hne,p,info,rfl,hi,hv⟩
  · rintro ⟨hne,_,info,rfl,hi,hv⟩
    exact ⟨_,info,rfl,by rw [OrderMap.get?_remove,if_neg hne,hi],hv⟩

theorem acceptable_cons (hp : pending.get? s = some p) :
    Acceptable op threshold pending s (m::paid) ↔
      Payable threshold pending s m.reblinded.computeTxid ∧ NoTreasuryPayout op pending m ∧
        Acceptable op threshold (pending.insert s (p.remove m.reblinded.computeTxid)) s paid := by
  have hout : ∀ m', NoTreasuryPayout op (pending.insert s (p.remove m.reblinded.computeTxid)) m' ↔
      NoTreasuryPayout op pending m' := by
    intro m'
    simp only [NoTreasuryPayout,contains_remove hp]
  constructor
  · rintro ⟨hd,hpay,ho⟩
    rw [List.map_cons,List.nodup_cons] at hd
    refine ⟨hpay m (List.mem_cons_self ..),ho m (List.mem_cons_self ..),hd.2,?_,?_⟩
    · intro m' hm'
      refine (payable_remove hp _ _).mpr ⟨?_,hpay m' (List.mem_cons_of_mem _ hm')⟩
      intro he
      exact hd.1 (List.mem_map.mpr ⟨m',hm',he⟩)
    · intro m' hm'
      exact (hout m').mpr (ho m' (List.mem_cons_of_mem _ hm'))
  · rintro ⟨hfirst,hno,hd,hpay,ho⟩
    refine ⟨?_,?_,?_⟩
    · rw [List.map_cons,List.nodup_cons]
      refine ⟨?_,hd⟩
      intro hmem
      obtain ⟨m',hm',he⟩ := List.mem_map.mp hmem
      exact ((payable_remove hp _ _).mp (hpay m' hm')).1 he
    · intro m' hm'
      rcases List.mem_cons.mp hm' with rfl | hm'
      · exact hfirst
      · exact ((payable_remove hp _ _).mp (hpay m' hm')).2
    · intro m' hm'
      rcases List.mem_cons.mp hm' with rfl | hm'
      · exact hno
      · exact (hout m').mp (ho m' hm')

end Treasury

section Run
open BlockProducer

variable {h : BlockHandler} {T : Txid → Prop} {acc acc' : TxState} {ctips ctips' : Ctips}
  {s : SidechainNumber} {l : List BlindedM6} {txs : List Transaction} {accepted : BmmCommitments}
  {parent hash : BlockHash}

/-- The producer knows the treasuries that the validator has within the block. -/
structure InSync (T : Txid → Prop) (acc : TxState) (ctips : Ctips) : Prop where
  unsettled : Unsettled T acc.dbs acc.unconsolidatedCtips
  consolidated : ctips.consolidated = acc.dbs.ctip
  unconsolidated : ctips.unconsolidated = acc.unconsolidatedCtips

namespace InSync

variable (hs : InSync T acc ctips)
include hs

theorem unconsolidatedOf (a : SidechainNumber) :
    ctips.unconsolidatedOf a = acc.unconsolidatedCtips.ofSlot a := by
  rw [Ctips.unconsolidatedOf,hs.unconsolidated]
  rfl

variable [Bitcoin]

theorem covers {c : Ctip} {blinded : Transaction} {m : BlindedM6}
    (hc : ctips.consolidated.get? s = some c) (hm : BlindedM6.tryFrom blinded = .ok m)
    (hamount : ((c::ctips.unconsolidatedOf s).map Ctip.value).sum < 2^64)
    (henough : m.demand ≤ ((c::ctips.unconsolidatedOf s).map Ctip.value).sum) :
    Suffices T acc s c blinded m := by
  rw [hs.unconsolidatedOf] at hamount henough
  rw [hs.consolidated] at hc
  exact ⟨hs.unsettled,hc,hm,hamount,henough⟩

theorem afterM6 {c : Ctip} {m : BlindedM6} {infos : FinMap SidechainNumber TxCtipsInfo}
    {res : Option DepositsOrSuccessfulWithdrawal} {op : OpDrivechain}
    (hd : TxDone h acc (m.m6Tx op s (c::acc.unconsolidatedCtips.ofSlot s)) acc' infos res)
    (hnew : ¬ T (m.m6Tx op s (c::acc.unconsolidatedCtips.ofSlot s)).computeTxid)
    (hp : Paid acc acc' s m.reblinded.computeTxid
      ⟨⟨(m.m6Tx op s (c::acc.unconsolidatedCtips.ofSlot s)).computeTxid,0⟩,
        ((c::acc.unconsolidatedCtips.ofSlot s).map Ctip.value).sum-m.demand⟩) :
    InSync (fun t => T t ∨ t = (m.m6Tx op s (c::ctips.unconsolidatedOf s)).computeTxid) acc'
      (ctips.afterM6 op s (c::ctips.unconsolidatedOf s) m) := by
  rw [hs.unconsolidatedOf]
  refine ⟨hs.unsettled.step hd hnew,?_,?_⟩
  · rw [Ctips.afterM6,hp.ctip,hs.consolidated]
  · rw [Ctips.afterM6,hp.unconsolidated,hs.unconsolidated]

end InSync

variable [Bitcoin]

/-- The bundles of other slots stay pending, and all slots stay active. -/
structure KeepsOthers (s : SidechainNumber) (acc acc' : TxState) : Prop where
  others : ∀ a, s ≠ a → acc'.dbs.pendingM6ids.get? a = acc.dbs.pendingM6ids.get? a
  slots : ∀ a, acc'.dbs.pendingM6ids.contains a = acc.dbs.pendingM6ids.contains a

omit [Bitcoin] in
theorem Paid.keepsOthers {m6id : M6id} {c : Ctip} (hp : Paid acc acc' s m6id c) :
    KeepsOthers s acc acc' := by
  obtain ⟨p,hget,hpend⟩ := hp.pending
  refine ⟨fun a ha => ?_,fun a => ?_⟩
  · rw [hpend,FinMap.get?_insert_ne _ _ ha]
  · rw [hpend,contains_remove hget]

/-- The bundles that a slot pays are acceptable. -/
def Redeemable (h : BlockHandler) (pending : FinMap SidechainNumber PendingM6ids) (ctips : Ctips)
    (e : SidechainNumber × BundleProposals) : Prop :=
  Acceptable h.params.opDrivechain h.thresholds.withdrawalBundleInclusionThreshold pending e.1
    (paidBundles ctips e.1 (approved h.thresholds.withdrawalBundleInclusionThreshold e.2))

namespace BlockProducer

/-- What the withdrawals of a slot do when they are accepted. -/
theorem Pays.run (hp : Pays h.params.opDrivechain s l ctips txs ctips')
    (hreq : h.requirePayableBundles = true)
    (hm : ∀ m ∈ l, ∃ blinded, BlindedM6.tryFrom blinded = .ok m) (hs : InSync T acc ctips)
    (hnew : NewTxs T txs) (hf : txs.foldlM (h.connectTx accepted parent hash) acc = .ok acc') :
    InSync (fun t => T t ∨ t ∈ txs.map Transaction.computeTxid) acc' ctips' ∧
      KeepsOthers s acc acc' := by
  induction hp generalizing T acc with
  | done =>
    obtain rfl := Except.ok.inj hf
    exact ⟨⟨hs.unsettled.mono (fun _ ht => .inl ht),hs.consolidated,hs.unconsolidated⟩,
      fun _ _ => rfl,fun _ => rfl⟩
  | noTreasury missing =>
    obtain rfl := Except.ok.inj hf
    exact ⟨⟨hs.unsettled.mono (fun _ ht => .inl ht),hs.consolidated,hs.unconsolidated⟩,
      fun _ _ => rfl,fun _ => rfl⟩
  | skipped _ _ _ _ ih => exact ih (fun m hmem => hm m (List.mem_cons_of_mem _ hmem)) hs hnew hf
  | @paid m rest ctips ctips' c txs ctip amount enough others ih =>
    obtain ⟨blinded,hb⟩ := hm m (List.mem_cons_self ..)
    obtain ⟨acc₁,h₁,hf⟩ := Fallible.bind_ok.mp hf
    obtain ⟨hT,hrest⟩ := newTxs_cons hnew
    have hsuf := hs.covers ctip hb amount enough
    rw [hs.unconsolidatedOf] at h₁ hT
    obtain ⟨infos,res,hd⟩ := connectTx_ok h₁
    obtain ⟨-,-,hpaid⟩ := hsuf.paid hreq h₁
    obtain ⟨hsync,hkeep⟩ := ih (fun m hmem => hm m (List.mem_cons_of_mem _ hmem))
      (hs.afterM6 hd hT hpaid) hrest hf
    have hfirst := hpaid.keepsOthers
    refine ⟨⟨hsync.unsettled.mono ?_,hsync.consolidated,hsync.unconsolidated⟩,?_,?_⟩
    · intro t ht
      simpa only [List.map_cons,List.mem_cons,or_assoc] using ht
    · intro a ha
      rw [hkeep.others a ha,hfirst.others a ha]
    · intro a
      rw [hkeep.slots,hfirst.slots]

/-- They are accepted exactly if the bundles that they pay are acceptable. -/
theorem Pays.accepted_iff (hp : Pays h.params.opDrivechain s l ctips txs ctips')
    (hreq : h.requirePayableBundles = true)
    (hm : ∀ m ∈ l, ∃ blinded, BlindedM6.tryFrom blinded = .ok m) (hs : InSync T acc ctips)
    (hnew : NewTxs T txs) :
    (∃ acc', txs.foldlM (h.connectTx accepted parent hash) acc = .ok acc') ↔
      Acceptable h.params.opDrivechain h.thresholds.withdrawalBundleInclusionThreshold
        acc.dbs.pendingM6ids s (paidBundles ctips s l) := by
  induction hp generalizing T acc with
  | done =>
    rw [paidBundles_nil]
    exact iff_of_true ⟨acc,rfl⟩ acceptable_nil
  | @noTreasury m rest ctips missing =>
    have hnil : paidBundles ctips s (m::rest) = [] := by simp [paidBundles,FinMap.contains,missing]
    rw [hnil]
    exact iff_of_true ⟨acc,rfl⟩ acceptable_nil
  | @skipped m rest ctips ctips' c txs ctip amount exceeds others ih =>
    rw [paidBundles_cons h.params.opDrivechain ctip,if_neg (Nat.not_le_of_lt exceeds)]
    exact ih (fun m hmem => hm m (List.mem_cons_of_mem _ hmem)) hs hnew
  | @paid m rest ctips ctips' c txs ctip amount enough others ih =>
    obtain ⟨blinded,hb⟩ := hm m (List.mem_cons_self ..)
    have hm' : ∀ m ∈ rest, ∃ blinded, BlindedM6.tryFrom blinded = .ok m :=
      fun m hmem => hm m (List.mem_cons_of_mem _ hmem)
    obtain ⟨hT,hrest⟩ := newTxs_cons hnew
    have hsuf := hs.covers ctip hb amount enough
    rw [paidBundles_cons h.params.opDrivechain ctip,if_pos enough,List.foldlM_cons]
    simp only [Fallible.bind_ok]
    rw [hs.unconsolidatedOf] at hT
    -- the rest is judged after this payment, whose bundle is no longer pending
    have hafter : ∀ acc₁, h.connectTx accepted parent hash acc
        (m.m6Tx h.params.opDrivechain s (c::acc.unconsolidatedCtips.ofSlot s)) = .ok acc₁ →
        ∃ p, acc.dbs.pendingM6ids.get? s = some p ∧
          ((∃ acc', txs.foldlM (h.connectTx accepted parent hash) acc₁ = .ok acc') ↔
            Acceptable h.params.opDrivechain h.thresholds.withdrawalBundleInclusionThreshold
              (acc.dbs.pendingM6ids.insert s (p.remove m.reblinded.computeTxid)) s
              (paidBundles (ctips.afterM6 h.params.opDrivechain s (c::ctips.unconsolidatedOf s) m) s
                rest)) := by
      intro acc₁ h₁
      obtain ⟨infos,res,hd⟩ := connectTx_ok h₁
      obtain ⟨-,-,hpaid⟩ := hsuf.paid hreq h₁
      obtain ⟨p,hp,hpend⟩ := hpaid.pending
      refine ⟨p,hp,?_⟩
      rw [← hpend]
      exact ih hm' (hs.afterM6 hd hT hpaid) hrest
    rw [hs.unconsolidatedOf]
    constructor
    · rintro ⟨acc',acc₁,h₁,hf⟩
      obtain ⟨hpay,hout,-⟩ := hsuf.paid hreq h₁
      obtain ⟨p,hp,hiff⟩ := hafter acc₁ h₁
      rw [hs.unconsolidatedOf] at hiff
      exact (acceptable_cons hp).mpr ⟨hpay,hout,hiff.mp ⟨acc',hf⟩⟩
    · intro hacc
      have hpay := hacc.payable m (List.mem_cons_self ..)
      have hfirst : ∃ acc₁, h.connectTx accepted parent hash acc
          (m.m6Tx h.params.opDrivechain s (c::acc.unconsolidatedCtips.ofSlot s)) = .ok acc₁ :=
        hsuf.succeeds hpay (hacc.payouts m (List.mem_cons_self ..))
      obtain ⟨acc₁,h₁⟩ := hfirst
      obtain ⟨p,hp,hiff⟩ := hafter acc₁ h₁
      rw [hs.unconsolidatedOf] at hiff
      obtain ⟨acc',hf⟩ := hiff.mpr ((acceptable_cons hp).mp hacc).2.2
      exact ⟨acc',acc₁,h₁,hf⟩

/-- All withdrawals are accepted exactly if the bundles that each slot pays are acceptable,
and then producer and validator agree again. -/
theorem PaysAll.accepted_iff {l : List (SidechainNumber × BundleProposals)}
    (hp : PaysAll h.params.opDrivechain h.thresholds.withdrawalBundleInclusionThreshold l ctips txs
      ctips') (hreq : h.requirePayableBundles = true) (hl : (l.map Prod.fst).Nodup)
    (hm : ∀ e ∈ l, ∀ m ∈ approved h.thresholds.withdrawalBundleInclusionThreshold e.2,
      ∃ blinded, BlindedM6.tryFrom blinded = .ok m) (hs : InSync T acc ctips) (hnew : NewTxs T txs) :
    ((∃ acc', txs.foldlM (h.connectTx accepted parent hash) acc = .ok acc') ↔
      ∀ e ∈ l, Redeemable h acc.dbs.pendingM6ids ctips e) ∧
    ∀ acc', txs.foldlM (h.connectTx accepted parent hash) acc = .ok acc' →
      InSync (fun t => T t ∨ t ∈ txs.map Transaction.computeTxid) acc' ctips' := by
  induction hp generalizing T acc with
  | nil =>
    refine ⟨iff_of_true ⟨acc,rfl⟩ (by simp),fun acc' hf => ?_⟩
    obtain rfl := Except.ok.inj hf
    exact ⟨hs.unsettled.mono (fun _ ht => .inl ht),hs.consolidated,hs.unconsolidated⟩
  | @cons s m6ids rest ctips ctips₁ ctips' txs txs' slot others ih =>
    rw [List.map_cons,List.nodup_cons] at hl
    obtain ⟨hnew₁,hnew₂⟩ := newTxs_append hnew
    have hmslot := hm (s,m6ids) (List.mem_cons_self ..)
    have hafter : ∀ acc₁, txs.foldlM (h.connectTx accepted parent hash) acc = .ok acc₁ →
        InSync (fun t => T t ∨ t ∈ txs.map Transaction.computeTxid) acc₁ ctips₁ ∧ ∀ e ∈ rest,
          (Redeemable h acc₁.dbs.pendingM6ids ctips₁ e ↔ Redeemable h acc.dbs.pendingM6ids ctips e) := by
      intro acc₁ h₁
      obtain ⟨hsync,hkeep⟩ := slot.run hreq hmslot hs hnew₁ h₁
      refine ⟨hsync,fun e he => ?_⟩
      have hne : s ≠ e.1 := by
        intro heq
        exact hl.1 (List.mem_map.mpr ⟨e,he,heq.symm⟩)
      rw [Redeemable,paidBundles_congr (slot.sameSlot hne)]
      exact Acceptable.congr (hkeep.others e.1 hne) hkeep.slots
    have hslot : (∃ acc₁, txs.foldlM (h.connectTx accepted parent hash) acc = .ok acc₁) ↔
        Redeemable h acc.dbs.pendingM6ids ctips (s,m6ids) := slot.accepted_iff hreq hmslot hs hnew₁
    have hmrest : ∀ e ∈ rest, ∀ m ∈ approved h.thresholds.withdrawalBundleInclusionThreshold e.2,
        ∃ blinded, BlindedM6.tryFrom blinded = .ok m :=
      fun e he => hm e (List.mem_cons_of_mem _ he)
    constructor
    · constructor
      · rintro ⟨acc',hf⟩ e he
        rw [List.foldlM_append] at hf
        obtain ⟨acc₁,h₁,hf⟩ := Fallible.bind_ok.mp hf
        obtain ⟨hsync,hiff⟩ := hafter acc₁ h₁
        rcases List.mem_cons.mp he with rfl | he
        · exact hslot.mp ⟨acc₁,h₁⟩
        · exact (hiff e he).mp ((ih hl.2 hmrest hsync hnew₂).1.mp ⟨acc',hf⟩ e he)
      · intro hall
        obtain ⟨acc₁,h₁⟩ := hslot.mpr (hall (s,m6ids) (List.mem_cons_self ..))
        obtain ⟨hsync,hiff⟩ := hafter acc₁ h₁
        obtain ⟨acc',hf⟩ := (ih hl.2 hmrest hsync hnew₂).1.mpr
          (fun e he => (hiff e he).mpr (hall e (List.mem_cons_of_mem _ he)))
        exact ⟨acc',by rw [List.foldlM_append]; exact Fallible.bind_ok.mpr ⟨acc₁,h₁,hf⟩⟩
    · intro acc' hf
      rw [List.foldlM_append] at hf
      obtain ⟨acc₁,h₁,hf⟩ := Fallible.bind_ok.mp hf
      obtain ⟨hsync,-⟩ := hafter acc₁ h₁
      have hend := (ih hl.2 hmrest hsync hnew₂).2 acc' hf
      refine ⟨hend.unsettled.mono (fun t ht => ?_),hend.consolidated,hend.unconsolidated⟩
      simpa only [List.map_append,List.mem_append,or_assoc] using ht

end BlockProducer

end Run

end Bip300301Enforcer
