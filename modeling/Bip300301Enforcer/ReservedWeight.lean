import Bip300301Enforcer.ApprovedBundles
import Bip300301Enforcer.Conservation
import Bip300301Enforcer.SuffixWeight
import Mathlib.Algebra.Order.BigOperators.Group.List
import Mathlib.Data.FinEnum

/-! The weight that is reserved for the end of a block suffices, whatever transactions are
chosen for the rest of the block. -/
namespace Bip300301Enforcer
open Lib BlockHandler BlockProducer

namespace UnconsolidatedCtips

/-- There are at most `n` treasury outputs, and no slot without any. -/
structure Counted (u : UnconsolidatedCtips) (n : ℕ) : Prop where
  atMost : u.total ≤ n
  nonempty : ∀ s l, u.bySidechain.get? s = some l → l ≠ []
  empty : n = 0 → u.byOutpoint = .empty

theorem counted_default : Counted default 0 := by
  refine ⟨?_,?_,fun _ => rfl⟩
  · simp [total,default]
  · intro s l hs
    simp [default] at hs

theorem Counted.remove {u : UnconsolidatedCtips} {n : ℕ} (h : Counted u n) (o : OutPoint) :
    Counted (u.remove o) n := by
  unfold UnconsolidatedCtips.remove
  cases ho : u.byOutpoint.get? o with
  | none => exact h
  | some e =>
    obtain ⟨s,value⟩ := e
    have hpos : n ≠ 0 := by
      intro hn
      rw [h.empty hn] at ho
      simp at ho
    cases hs : u.bySidechain.get? s with
    | none => exact ⟨by simpa [total,hs] using h.atMost,by simpa [hs] using h.nonempty,
        fun hn => absurd hn hpos⟩
    | some ctips =>
      have hle := List.length_filter_le (fun c => decide (c ≠ (⟨o,value⟩ : Ctip))) ctips
      simp only [hs]
      split
      · have hsum := FinMap.sumBy_erase (fun _ l => l.length) hs
        have htotal := h.atMost
        unfold total at htotal
        refine ⟨by unfold total; dsimp only; omega,?_,fun hn => absurd hn hpos⟩
        intro a l ha
        rw [FinMap.get?_erase] at ha
        split at ha
        · cases ha
        · exact h.nonempty a l ha
      · rename_i hne
        have hsum := FinMap.sumBy_replace (ctips.filter (fun c => decide (c ≠ (⟨o,value⟩ : Ctip))))
          (fun _ l => l.length) hs
        have htotal := h.atMost
        unfold total at htotal
        refine ⟨by unfold total; dsimp only at hsum ⊢; omega,?_,fun hn => absurd hn hpos⟩
        intro a l ha
        rw [FinMap.get?_insert] at ha
        split at ha
        · obtain rfl := Option.some.inj ha
          exact fun he => hne (List.isEmpty_iff.mpr he)
        · exact h.nonempty a l ha

theorem Counted.insert {u : UnconsolidatedCtips} {n : ℕ} (h : Counted u n) (s : SidechainNumber)
    (c : Ctip) : Counted (u.insert s c) (n+1) := by
  have htotal := h.atMost
  refine ⟨?_,?_,fun hn => absurd hn (by omega)⟩
  · cases hs : u.bySidechain.get? s with
    | none =>
      have hsum := FinMap.sumBy_insert (linkedInsert [] c) (fun _ l => l.length) hs
      have hone : (linkedInsert [] c).length = 1 := rfl
      simp only [total,UnconsolidatedCtips.insert,hs,Option.getD_none] at htotal ⊢
      omega
    | some l =>
      have hsum := FinMap.sumBy_replace (linkedInsert l c) (fun _ l => l.length) hs
      have hlen : (linkedInsert l c).length ≤ l.length+1 := by
        have := List.length_filter_le (fun c' => decide (c' ≠ c)) l
        rw [linkedInsert,List.length_append,List.length_singleton]
        omega
      simp only [total,UnconsolidatedCtips.insert,hs,Option.getD_some] at htotal ⊢
      omega
  · intro a l ha
    rw [UnconsolidatedCtips.insert,FinMap.get?_insert] at ha
    split at ha
    · obtain rfl := Option.some.inj ha
      simp [linkedInsert]
    · exact h.nonempty a l ha

end UnconsolidatedCtips

section Prefix
open UnconsolidatedCtips

variable {h : BlockHandler}

theorem counted_updateUnconsolidated {u : UnconsolidatedCtips} {n : ℕ} (hu : Counted u n)
    (dbs : ActiveSidechainDbs) (s : SidechainNumber) (info : TxCtipsInfo) :
    Counted (updateUnconsolidated dbs u s info) (n+1) := by
  have hremoved : Counted (info.unconsolidatedCtipInputs.foldl (fun u c => u.remove c.outpoint) u) n :=
    List.foldlRecOn (motive := fun u => Counted u n) info.unconsolidatedCtipInputs _ hu
      (fun u hu c _ => hu.remove c.outpoint)
  unfold updateUnconsolidated
  dsimp only
  split
  · have := hremoved.atMost
    refine ⟨by omega,hremoved.nonempty,fun hn => absurd hn (by omega)⟩
  · exact hremoved.insert s info.ctipOutput

variable [Bitcoin]

omit [Bitcoin] in
theorem counted_updateAll {u : UnconsolidatedCtips} {n : ℕ} (hu : Counted u n)
    (dbs : ActiveSidechainDbs) (l : List (SidechainNumber × TxCtipsInfo)) :
    Counted (updateAll dbs u l) (n+l.length) := by
  induction l using List.reverseRecOn with
  | nil => exact hu
  | append_singleton l e ih =>
    rw [updateAll_snoc,List.length_append,List.length_singleton,← Nat.add_assoc]
    exact counted_updateUnconsolidated ih dbs e.1 e.2

/-- The number of `OP_DRIVECHAIN` outputs of a transaction. -/
def treasuryOutputs (op : OpDrivechain) (tx : Transaction) : ℕ :=
  (tx.output.filter (fun out => (op.parse out.scriptPubkey).isSome)).length

theorem length_fillCtips_le {dbs : ActiveSidechainDbs} {u : UnconsolidatedCtips} {tx : Transaction}
    {infos : FinMap SidechainNumber TxCtipsInfo} (hinfos : h.fillCtips dbs u tx = .ok infos) :
    infos.toList.length ≤ treasuryOutputs h.params.opDrivechain tx := by
  obtain ⟨-,hget⟩ := fillCtips_ok.mp hinfos
  have hsub : infos.keys ⊆
      tx.output.filterMap (fun out => h.params.opDrivechain.parse out.scriptPubkey) := by
    intro s hs
    obtain ⟨e,he,rfl⟩ := List.mem_map.mp hs
    have hslot := FinMap.mem_toList.mp he
    rw [hget e.1] at hslot
    obtain ⟨-,k,out,hout,hparse,-⟩ := slotInfo_output hslot
    exact List.mem_filterMap.mpr ⟨out,List.mem_of_getElem? hout,hparse⟩
  have hlen := (List.subperm_of_subset (FinMap.nodup_keys infos) hsub).length_le
  rwa [FinMap.keys,List.length_map,List.length_filterMap_eq_countP,List.countP_eq_length_filter] at hlen

theorem counted_foldlM_connectTx {accepted : BmmCommitments} {parent blockHash : BlockHash}
    {txs : List Transaction} {acc acc' : TxState} (hu : acc.unconsolidatedCtips = .default)
    (hf : txs.foldlM (h.connectTx accepted parent blockHash) acc = .ok acc') :
    Counted acc'.unconsolidatedCtips (txs.map (treasuryOutputs h.params.opDrivechain)).sum := by
  refine Fallible.foldlM_prefix (fun done acc =>
    Counted acc.unconsolidatedCtips (done.map (treasuryOutputs h.params.opDrivechain)).sum) hf ?_ ?_
  · rw [hu]
    exact counted_default
  · rintro done tx rest t t' - ht hstep
    obtain ⟨infos,r,hd⟩ := connectTx_ok hstep
    have hall := counted_updateAll ht t.dbs infos.toList
    have hle := length_fillCtips_le hd.fill
    rw [hd.unconsolidated,List.map_append,List.sum_append,List.map_singleton,List.sum_singleton]
    have hatMost := hall.atMost
    refine ⟨by omega,hall.nonempty,fun hn => hall.empty (by omega)⟩

theorem getWithdrawalStateAfter_some {dbs : Dbs} {block : Block} {state : WithdrawalState}
    (hs : h.getWithdrawalStateAfter dbs block = .ok (some state)) :
    ∃ dbs₀ info dbs', storeHeader dbs block = some dbs₀ ∧
      h.partialConnectBlock dbs₀ block = .ok (info,dbs') ∧
      state = ⟨⟨dbs'.activeSidechains.ctip,info.unconsolidatedCtips⟩,
        dbs'.activeSidechains.pendingM6ids⟩ := by
  unfold getWithdrawalStateAfter at hs
  split at hs
  · cases hs
  · rename_i dbs₀ hstore
    split at hs
    · rename_i info dbs' hp
      exact ⟨dbs₀,info,dbs',hstore,hp,(Option.some.inj (Except.ok.inj hs)).symm⟩
    · split at hs <;> cases hs

theorem counted_getWithdrawalStateAfter {dbs : Dbs} {block : Block} {state : WithdrawalState}
    (hs : h.getWithdrawalStateAfter dbs block = .ok (some state)) :
    Counted state.ctips.unconsolidated
      (block.txdata.tail.map (treasuryOutputs h.params.opDrivechain)).sum := by
  obtain ⟨dbs₀,info,dbs',-,hp,rfl⟩ := getWithdrawalStateAfter_some hs
  obtain ⟨n,coinbase,txs,res,hacc,-,rfl⟩ := partialConnectBlock_ok.mp hp
  rw [hacc.txdata,List.tail_cons]
  rcases processBlock_ok hacc.processed with
    ⟨-,rfl⟩ | ⟨-,scan,t₁,t₂,accepted,events,d,acc,-,-,hf,rfl⟩
  · obtain ⟨htotal,hne,hempty⟩ := counted_default
    exact ⟨htotal.trans (Nat.zero_le _),hne,fun _ => rfl⟩
  · exact counted_foldlM_connectTx rfl hf

end Prefix

section Tweaks

variable (h : BlockHandler)

def bmmTweak (tx : Transaction) : ℕ := if (parseM8Tx tx).isSome then bmmAcceptOutputWeight else 0

/-- The weight that a transaction adds for the consolidation of its treasury outputs. -/
def consolidationTweak (op : OpDrivechain) (tx : Transaction) : ℕ :=
  if treasuryOutputs op tx = 0 then 0 else consolidationTxWeight (treasuryOutputs op tx)

theorem weightTweak_eq (tx : Transaction) :
    h.weightTweak tx = bmmTweak tx+consolidationTweak h.params.opDrivechain tx := rfl

variable [Bitcoin]

theorem acceptTxWithPayout_weight {dbs dbs' : Dbs} {tx : Transaction} {conflicts : List Txid}
    {tweak : ℕ} {payout : Option (SidechainNumber × M6id)}
    (ha : h.acceptTxWithPayout dbs tx = .ok (.accept conflicts tweak,payout,dbs')) :
    tweak = h.weightTweak tx := by
  obtain ⟨validated,-,ha⟩ := Fallible.bind_ok.mp ha
  split at ha
  · rw [Fallible.pure_ok] at ha
    cases ha
  · simp only [Fallible.pure_ok,Prod.mk.injEq,TxAcceptAction.accept.injEq] at ha
    exact ha.1.2.symm

omit [Bitcoin] in
theorem sum_consolidationTweak_le (op : OpDrivechain) (txs : List Transaction) {n : ℕ}
    (hn : n = (txs.map (treasuryOutputs op)).sum) :
    (if n = 0 then 0 else 72)+380*n ≤ (txs.map (consolidationTweak op)).sum := by
  induction txs generalizing n with
  | nil =>
    subst hn
    exact Nat.le_refl 0
  | cons tx txs ih =>
    have hrest := ih rfl
    have hone : (if treasuryOutputs op tx = 0 then 0 else 72)+380*treasuryOutputs op tx ≤
        consolidationTweak op tx := by
      simp only [consolidationTweak,consolidationTxWeight]
      split <;> omega
    subst hn
    simp only [List.map_cons,List.sum_cons]
    split_ifs at hrest hone ⊢ <;> omega

end Tweaks

section Bundles

theorem bundlesWeight_perm (threshold : UInt16) (limit : SidechainNumber → ℕ)
    {l l' : List (SidechainNumber × BundleProposals)} (h : l.Perm l') :
    bundlesWeight threshold limit l = bundlesWeight threshold limit l' := (h.map _).sum_eq

theorem sum_filter_le {α : Type} {l : List α} {p q : α → Bool} (w : α → ℕ)
    (h : ∀ a ∈ l, p a = true → q a = true) :
    ((l.filter p).map w).sum ≤ ((l.filter q).map w).sum := by
  have hp : l.filter p = (l.filter q).filter p := by
    rw [List.filter_filter]
    refine List.filter_congr (fun a ha => ?_)
    cases hpa : p a with
    | false => rfl
    | true => rw [h a ha hpa,Bool.true_and]
  rw [hp]
  exact (List.filter_sublist.map w).sum_le_sum (fun _ _ => Nat.zero_le _)

theorem bundlesWeight_mono {threshold : UInt16} {limit limit' : SidechainNumber → ℕ}
    {l : List (SidechainNumber × BundleProposals)}
    (h : ∀ e ∈ l, ∀ m ∈ approved threshold e.2, m.demand ≤ limit e.1 → m.demand ≤ limit' e.1) :
    bundlesWeight threshold limit l ≤ bundlesWeight threshold limit' l := by
  refine List.sum_le_sum (fun e he => sum_filter_le _ (fun m hm hle => ?_))
  exact decide_eq_true (h e he m hm (of_decide_eq_true hle))

/-- What is left out is not approved. -/
theorem approved_keepPayable (threshold : UInt16) (pending : FinMap SidechainNumber PendingM6ids)
    (e : SidechainNumber × BundleProposals) :
    (approved threshold (keepPayable threshold pending e).2).Sublist (approved threshold e.2) := by
  obtain ⟨s,l⟩ := e
  induction l with
  | nil => exact .slnil
  | cons m l ih =>
    obtain ⟨m6id,b,info⟩ := m
    have hnone : ∀ rest, approved threshold ((m6id,b,none)::rest) = approved threshold rest :=
      fun _ => rfl
    simp only [keepPayable,List.map_cons] at ih ⊢
    by_cases hp : stillPayable threshold pending s m6id = true
    · rw [if_pos hp]
      cases info with
      | none => exact ih
      | some info =>
        by_cases hv : info.voteCount ≤ threshold
        · simpa only [approved,List.filterMap_cons,if_pos hv] using ih
        · simpa only [approved,List.filterMap_cons,if_neg hv] using ih.cons_cons b
    · rw [if_neg hp,hnone]
      refine ih.trans ?_
      cases info with
      | none => exact List.Sublist.refl _
      | some info =>
        by_cases hv : info.voteCount ≤ threshold
        · simp only [approved,List.filterMap_cons,if_pos hv,List.Sublist.refl]
        · simp only [approved,List.filterMap_cons,if_neg hv]
          exact List.sublist_cons_self _ _

theorem bundlesWeight_keepPayable_le (threshold : UInt16) (limit : SidechainNumber → ℕ)
    (pending : FinMap SidechainNumber PendingM6ids) (l : List (SidechainNumber × BundleProposals)) :
    bundlesWeight threshold limit (l.map (keepPayable threshold pending)) ≤
      bundlesWeight threshold limit l := by
  unfold bundlesWeight
  rw [List.map_map]
  refine List.sum_le_sum (fun e _ => ?_)
  exact (((approved_keepPayable threshold pending e).filter _).map _).sum_le_sum
    (fun _ _ => Nat.zero_le _)

end Bundles

section Fake

theorem fakeCtips_get? (s : SidechainNumber) :
    fakeCtips.consolidated.get? s = some (fakeCtip s) := by
  have hnodup : (((List.range 256).map
      (fun n => (UInt8.ofNat n,fakeCtip (UInt8.ofNat n)))).map Prod.fst).Nodup := by
    rw [List.map_map]
    refine List.Nodup.map_on (fun a ha b hb hab => ?_) List.nodup_range
    have hmod := congrArg UInt8.toNat hab
    simp only [Function.comp_apply,UInt8.toNat_ofNat'] at hmod
    rw [List.mem_range] at ha hb
    omega
  have hmem : (s,fakeCtip s) ∈ (List.range 256).map
      (fun n => (UInt8.ofNat n,fakeCtip (UInt8.ofNat n))) := by
    refine List.mem_map.mpr ⟨s.toNat,List.mem_range.mpr s.toNat_lt,?_⟩
    rw [UInt8.ofNat_toNat]
  unfold fakeCtips
  rw [FinMap.get?_insertAll _ _ hnodup]
  cases hf : ((List.range 256).map (fun n => (UInt8.ofNat n,fakeCtip (UInt8.ofNat n)))).find?
      (fun e => e.1 = s) with
  | none => exact absurd (List.find?_eq_none.mp hf _ hmem) (by simp)
  | some e =>
    obtain ⟨n,-,rfl⟩ := List.mem_map.mp (List.mem_of_find?_eq_some hf)
    have he : UInt8.ofNat n = s := by simpa using List.find?_some hf
    rw [← he]

end Fake

section Reserve

/-- In every slot the approved bundles, each of which its treasury or all the money there
can be would suffice for, together ask for no more than all that money. -/
def DemandsCovered (params : NetworkParams) (dbs : Dbs)
    (stored : FinMap SidechainNumber (List (M6id × BlindedM6))) (ctips : Ctips) : Prop :=
  ∀ s ms pending, stored.get? s = some ms → dbs.activeSidechains.pendingM6ids.get? s = some pending →
    (((approved params.thresholds.withdrawalBundleInclusionThreshold
      (ms.map (fun m => (m.1,m.2,pending.get? m.1)))).filter
        (fun m => m.demand ≤ max maxMoney (ctips.treasury s))).map BlindedM6.demand).sum ≤ maxMoney

variable [Bitcoin] {params : NetworkParams} {dbs : Dbs} {order order' : VisitOrder}
  {stored : FinMap SidechainNumber (List (M6id × BlindedM6))} {ctips : Ctips}
  {suffix : List Transaction}

/-- The end of a block consists of the withdrawals, and of the consolidation of what they
leave. -/
theorem suffixTxsForProposals_ok {l : List (SidechainNumber × BundleProposals)} :
    suffixTxsForProposals order l ctips params = .ok suffix ↔
      ∃ txs ctips', PaysAll params.opDrivechain params.thresholds.withdrawalBundleInclusionThreshold
        l ctips txs ctips' ∧
        (ctips'.unconsolidated.isEmpty = true ∧ suffix = txs ∨
          ctips'.unconsolidated.isEmpty = false ∧ ∃ m5,
            (order.ctips ctips'.unconsolidated.bySidechain.toList).foldlM
              (consolidateSlot params.opDrivechain ctips'.consolidated) ⟨2,0,[],[]⟩ = .ok m5 ∧
            suffix = txs++[m5]) := by
  unfold suffixTxsForProposals
  rw [Fallible.bind_ok]
  constructor
  · rintro ⟨⟨txs,ctips'⟩,hpay,hrest⟩
    refine ⟨txs,ctips',payAll_ok.mp hpay,?_⟩
    cases he : ctips'.unconsolidated.isEmpty with
    | true =>
      simp only [he,if_true,Fallible.pure_ok] at hrest
      exact .inl ⟨rfl,hrest.symm⟩
    | false =>
      simp only [he,Bool.false_eq_true,if_false,Fallible.bind_ok,Fallible.pure_ok] at hrest
      obtain ⟨m5,hm5,rfl⟩ := hrest
      exact .inr ⟨rfl,m5,hm5,rfl⟩
  · rintro ⟨txs,ctips',hpay,⟨he,rfl⟩ | ⟨he,m5,hm5,rfl⟩⟩
    · exact ⟨(suffix,ctips'),payAll_ok.mpr hpay,by simp only [he,if_true]; rfl⟩
    · refine ⟨(txs,ctips'),payAll_ok.mpr hpay,?_⟩
      simp only [he,Bool.false_eq_true,if_false,hm5,Fallible.ok_bind]
      rfl

/-- The weight of the end of a block is that of the bundles that the treasuries suffice for,
and what is reserved for the deposits of the block. -/
theorem suffix_weight_le {l : List (SidechainNumber × BundleProposals)} {n : ℕ}
    (hs : suffixTxsForProposals order l ctips params = .ok suffix)
    (hu : ctips.unconsolidated.Counted n) :
    (suffix.map Transaction.weight).sum ≤
      bundlesWeight params.thresholds.withdrawalBundleInclusionThreshold ctips.treasury l+
        ((if n = 0 then 0 else 72)+380*n) := by
  obtain ⟨txs,ctips',hpay,hend⟩ := suffixTxsForProposals_ok.mp hs
  have hweight := hpay.weight_le ctips.treasury (fun s => Nat.le_refl _)
  have hsub := hpay.sub
  have hn := hu.atMost
  rcases hend with ⟨-,rfl⟩ | ⟨he,m5,hm5,rfl⟩
  · omega
  · have hm := consolidation_weight_le (fun s l hl => hu.nonempty s l (hsub.bySidechain s l hl)) hm5
    have hpos : n ≠ 0 := by
      intro hz
      have hempty : ctips'.unconsolidated.byOutpoint = .empty := by
        apply FinMap.ext
        intro o
        cases ho : ctips'.unconsolidated.byOutpoint.get? o with
        | none => simp
        | some e =>
          have := hsub.byOutpoint o e ho
          rw [hu.empty hz] at this
          simp at this
      have htrue := (FinMap.isEmpty_iff ctips'.unconsolidated.byOutpoint).mpr hempty
      rw [UnconsolidatedCtips.isEmpty,htrue] at he
      cases he
    rw [List.map_append,List.sum_append,List.map_singleton,List.sum_singleton,if_neg hpos]
    omega

theorem generateSuffixTxs_ok {pending : Option (FinMap SidechainNumber PendingM6ids)} :
    generateSuffixTxs order params dbs stored ctips pending = .ok suffix ↔
      ∃ active bundles, dbs.getActiveSidechains = .ok active ∧
        getBundleProposals dbs stored (usedSlots active) = .ok bundles ∧
        suffixTxsForProposals order
          (match pending with
            | none => order.proposals bundles.toList
            | some pending => (order.proposals bundles.toList).map
              (keepPayable params.thresholds.withdrawalBundleInclusionThreshold pending))
          ctips params = .ok suffix := by
  unfold generateSuffixTxs
  simp only [Fallible.bind_ok,Fallible.mapError_ok]
  constructor
  · rintro ⟨active,hactive,bundles,hbundles,hs⟩
    exact ⟨active,bundles,hactive,hbundles,hs⟩
  · rintro ⟨active,bundles,hactive,hbundles,hs⟩
    exact ⟨active,hactive,bundles,hbundles,hs⟩

theorem reservedSuffixTxs_weight (order : VisitOrder) {bundles : FinMap SidechainNumber BundleProposals}
    {active : List Sidechain} (hactive : dbs.getActiveSidechains = .ok active)
    (hbundles : getBundleProposals dbs stored (usedSlots active) = .ok bundles)
    (hsum : ∀ e ∈ bundles.toList,
      (((approved params.thresholds.withdrawalBundleInclusionThreshold e.2).filter
        (fun m => m.demand ≤ maxMoney)).map BlindedM6.demand).sum ≤ maxMoney) :
    ∃ reserved, reservedSuffixTxs order params dbs stored = .ok reserved ∧
      (reserved.map Transaction.weight).sum =
        bundlesWeight params.thresholds.withdrawalBundleInclusionThreshold (fun _ => maxMoney)
          bundles.toList := by
  have hperm := order.proposals_perm bundles.toList
  have hnodup : ((order.proposals bundles.toList).map Prod.fst).Nodup :=
    (hperm.map Prod.fst).nodup_iff.mpr (FinMap.nodup_keys bundles)
  have hmoney : maxMoney < 2^64 := by decide
  obtain ⟨txs,ctips',hpay,hdefault,hweight⟩ := paysAll_all params.opDrivechain
    params.thresholds.withdrawalBundleInclusionThreshold hmoney _ hnodup fakeCtips rfl
    (fun e he => ⟨fakeCtip e.1,fakeCtips_get? e.1,rfl,hsum e (hperm.subset he)⟩)
  have hempty : ctips'.unconsolidated.isEmpty = true := by
    rw [hdefault,UnconsolidatedCtips.isEmpty,FinMap.isEmpty_iff]
    rfl
  refine ⟨txs,generateSuffixTxs_ok.mpr ⟨active,bundles,hactive,hbundles,
    suffixTxsForProposals_ok.mpr ⟨txs,ctips',hpay,.inl ⟨hempty,rfl⟩⟩⟩,?_⟩
  rw [hweight,bundlesWeight_perm _ _ hperm]

/-- The weight of the end of a block is at most what is reserved before, and what its deposits
reserve. -/
theorem suffix_weight_le_reserved {block : Block} {state : WithdrawalState}
    (hstate : (BlockHandler.new params).getWithdrawalStateAfter dbs block = .ok (some state))
    (hs : generateSuffixTxs order params dbs stored state.ctips (some state.pendingWithdrawals) =
      .ok suffix) (hcovered : DemandsCovered params dbs stored state.ctips) :
    ∃ reserved, reservedSuffixTxs order' params dbs stored = .ok reserved ∧
      (suffix.map Transaction.weight).sum ≤ (reserved.map Transaction.weight).sum+
        (block.txdata.tail.map (consolidationTweak params.opDrivechain)).sum := by
  obtain ⟨active,bundles,hactive,hbundles,hs⟩ := generateSuffixTxs_ok.mp hs
  have hslots : ∀ e ∈ bundles.toList,
      (((approved params.thresholds.withdrawalBundleInclusionThreshold e.2).filter
        (fun m => m.demand ≤ max maxMoney (state.ctips.treasury e.1))).map BlindedM6.demand).sum ≤
          maxMoney := by
    rintro ⟨s,m6ids⟩ he
    obtain ⟨ms,p,hms,hp,rfl⟩ := getBundleProposals_get? hbundles (FinMap.mem_toList.mp he)
    exact hcovered s ms p hms hp
  have hmoney : ∀ e ∈ bundles.toList,
      (((approved params.thresholds.withdrawalBundleInclusionThreshold e.2).filter
        (fun m => m.demand ≤ maxMoney)).map BlindedM6.demand).sum ≤ maxMoney := by
    intro e he
    refine (sum_filter_le _ (fun m _ hm => ?_)).trans (hslots e he)
    have hle := of_decide_eq_true hm
    exact decide_eq_true (by omega)
  obtain ⟨reserved,hreserved,hweight⟩ :=
    reservedSuffixTxs_weight order' hactive hbundles hmoney
  refine ⟨reserved,hreserved,?_⟩
  have hcounted := counted_getWithdrawalStateAfter hstate
  have hreal := suffix_weight_le hs hcounted
  have htweak := sum_consolidationTweak_le params.opDrivechain block.txdata.tail rfl
  have hkeep := bundlesWeight_keepPayable_le params.thresholds.withdrawalBundleInclusionThreshold
    state.ctips.treasury state.pendingWithdrawals (order.proposals bundles.toList)
  rw [bundlesWeight_perm _ _ (order.proposals_perm bundles.toList)] at hkeep
  -- a bundle that the treasury suffices for is one of those that are covered together
  have hmono : bundlesWeight params.thresholds.withdrawalBundleInclusionThreshold state.ctips.treasury
      bundles.toList ≤ bundlesWeight params.thresholds.withdrawalBundleInclusionThreshold
        (fun _ => maxMoney) bundles.toList := by
    refine bundlesWeight_mono (fun e he m hm hle => ?_)
    have hmem : m.demand ∈ ((approved params.thresholds.withdrawalBundleInclusionThreshold e.2).filter
        (fun m => m.demand ≤ max maxMoney (state.ctips.treasury e.1))).map BlindedM6.demand := by
      refine List.mem_map_of_mem (List.mem_filter.mpr ⟨hm,decide_eq_true ?_⟩)
      omega
    exact (List.le_sum_of_mem hmem).trans (hslots e he)
  have hparams : (BlockHandler.new params).params.opDrivechain = params.opDrivechain := rfl
  rw [hparams] at hreal
  dsimp only at hreal
  rw [hweight]
  omega

omit [Bitcoin] in
/-- Bundles of which no two are approved have at most one approved one. -/
theorem length_approved_le_one {threshold : UInt16} {p : PendingM6ids}
    {ms : List (M6id × BlindedM6)} (hms : (ms.map Prod.fst).Nodup)
    (hp : ∀ a b i j, p.get? a = some i → p.get? b = some j → threshold < i.voteCount →
      threshold < j.voteCount → a = b) :
    (approved threshold (ms.map (fun m => (m.1,m.2,p.get? m.1)))).length ≤ 1 := by
  induction ms with
  | nil => exact Nat.zero_le _
  | cons m ms ih =>
    rw [List.map_cons,List.nodup_cons] at hms
    have hrest := ih hms.2
    have hskip : (∀ i, p.get? m.1 = some i → i.voteCount ≤ threshold) →
        approved threshold ((m.1,m.2,p.get? m.1)::ms.map (fun m => (m.1,m.2,p.get? m.1))) =
          approved threshold (ms.map (fun m => (m.1,m.2,p.get? m.1))) := by
      intro hlow
      cases hm : p.get? m.1 with
      | none => rfl
      | some i => simp only [approved,List.filterMap_cons,if_pos (hlow i hm)]
    rw [List.map_cons]
    by_cases hlow : ∀ i, p.get? m.1 = some i → i.voteCount ≤ threshold
    · rw [hskip hlow]
      exact hrest
    · -- the first one is approved, so that no other one is
      push Not at hlow
      obtain ⟨i,hi,hv'⟩ := hlow
      have hv : threshold < i.voteCount := UInt16.not_le.mp hv'
      have hnone : approved threshold (ms.map (fun m => (m.1,m.2,p.get? m.1))) = [] := by
        refine List.filterMap_eq_nil_iff.mpr (fun e he => ?_)
        obtain ⟨m',hm',rfl⟩ := List.mem_map.mp he
        cases hj : p.get? m'.1 with
        | none => rfl
        | some j =>
          refine if_pos (UInt16.not_lt.mp (fun hvj => ?_))
          have heq := hp m.1 m'.1 i j hi hj hv hvj
          exact hms.1 (List.mem_map.mpr ⟨m',hm',heq.symm⟩)
      simp only [approved,List.filterMap_cons,hi,if_neg hv'] at hnone ⊢
      rw [hnone]
      exact Nat.le_refl 1

theorem demandsCovered_of_reach {V : Chain → Block → Prop} {stale : Prop} {c : Chain} (fork : Fork)
    (network : Network) (hparams : params.thresholds = .forNetwork fork network)
    (hr : Reach (.new params) V stale dbs c)
    (hstored : ∀ s ms, stored.get? s = some ms → (ms.map Prod.fst).Nodup)
    (hmoney : ∀ s, ctips.treasury s ≤ maxMoney) : DemandsCovered params dbs stored ctips := by
  intro s ms p hms hp
  have hle := hmoney s
  have hmax : max maxMoney (ctips.treasury s) = maxMoney := by omega
  have hone : (approved params.thresholds.withdrawalBundleInclusionThreshold
      (ms.map (fun m => (m.1,m.2,p.get? m.1)))).length ≤ 1 := by
    refine length_approved_le_one (hstored s ms hms) (fun a b i j hi hj hvi hvj => ?_)
    exact approved_unique fork network hparams hr hp hi hj hvi hvj
  rw [hmax]
  cases hl : approved params.thresholds.withdrawalBundleInclusionThreshold
      (ms.map (fun m => (m.1,m.2,p.get? m.1))) with
  | nil => exact Nat.zero_le _
  | cons m rest =>
    rw [hl,List.length_cons] at hone
    have hrest : rest = [] := List.length_eq_zero_iff.mp (by omega)
    rw [hrest]
    by_cases hm : m.demand ≤ maxMoney
    · simp [hm]
    · simp [hm]

def Reported (params : NetworkParams) (tx : Transaction) (tweak : ℕ) : Prop :=
  ∃ dbs conflicts payout dbs', (BlockHandler.new params).acceptTxWithPayout dbs tx =
    .ok (.accept conflicts tweak,payout,dbs')

theorem sum_reported {txs : List Transaction} {tweaks : List ℕ}
    (h : List.Forall₂ (Reported params) txs tweaks) : tweaks.sum =
      (txs.map bmmTweak).sum+(txs.map (consolidationTweak params.opDrivechain)).sum := by
  induction h with
  | nil => rfl
  | cons hone hrest ih =>
    obtain ⟨dbs,conflicts,payout,dbs',ha⟩ := hone
    have htweak := (acceptTxWithPayout_weight _ ha).trans (weightTweak_eq _ _)
    have hparams : (BlockHandler.new params).params.opDrivechain = params.opDrivechain := rfl
    rw [hparams] at htweak
    simp only [List.map_cons,List.sum_cons]
    omega

/-- The end of a block weighs at most what was reserved for it before, and what was reported
for the consolidation of the other transactions, as long as the demands of the approved
bundles are covered. They are in every state that can be reached under the thresholds of a
network, where no treasury holds more than all the money there can be. -/
theorem suffix_weight_reserved (params : NetworkParams)
    (stored : FinMap SidechainNumber (List (M6id × BlindedM6))) (dbs : Dbs) :
    (∀ (order order' : VisitOrder) (block : Block) (state : WithdrawalState)
      (suffix : List Transaction) (tweaks : List ℕ),
      (BlockHandler.new params).getWithdrawalStateAfter dbs block = .ok (some state) →
      List.Forall₂ (Reported params) block.txdata.tail tweaks →
      generateSuffixTxs order params dbs stored state.ctips (some state.pendingWithdrawals) =
        .ok suffix →
      DemandsCovered params dbs stored state.ctips →
      ∃ reserved, reservedSuffixTxs order' params dbs stored = .ok reserved ∧
        (suffix.map Transaction.weight).sum+(block.txdata.tail.map bmmTweak).sum ≤
          (reserved.map Transaction.weight).sum+tweaks.sum) ∧
    (∀ (V : Chain → Block → Prop) (stale : Prop) (c : Chain) (fork : Fork) (network : Network)
      (ctips : Ctips), params.thresholds = .forNetwork fork network →
      Reach (.new params) V stale dbs c →
      (∀ s ms, stored.get? s = some ms → (ms.map Prod.fst).Nodup) →
      (∀ s, ctips.treasury s ≤ maxMoney) → DemandsCovered params dbs stored ctips) := by
  constructor
  · intro order order' block state suffix tweaks hstate htweaks hs hcovered
    obtain ⟨reserved,hreserved,hle⟩ := suffix_weight_le_reserved hstate hs hcovered
    have hsum := sum_reported htweaks
    exact ⟨reserved,hreserved,by omega⟩
  · intro V stale c fork network ctips hparams hr hstored hmoney
    exact demandsCovered_of_reach fork network hparams hr hstored hmoney

end Reserve

section Sample

open Sample TreasurySample

namespace ReserveSample

def inOrder : VisitOrder := ⟨id,id,fun _ => .refl _,fun _ => .refl _⟩

def blinded (payouts : List TxOut) : BlindedM6 :=
  ⟨10,(payouts.map TxOut.value).sum,⟨2,0,[],OpDrivechain.feeOutput 10::payouts⟩⟩

def stored : FinMap SidechainNumber (List (M6id × BlindedM6)) :=
  FinMap.empty.insert 0 [(bundle,blinded [⟨30,[0x51]⟩])]

def tip : BlockHash := (blocks.getLast?.map Block.blockHash).getD allZeros

def secondDeposit : Transaction :=
  ⟨2,0,[.spending ⟨7,0⟩],[⟨50,treasuryScript⟩,⟨0,Script.newOpReturn [9]⟩]⟩

def unfinished : Block := blockOn tip 16 [] [secondDeposit]

/-- Bundles of which the first asks for all the money there can be, and the second one for
40 in two payouts. -/
def large : BlindedM6 := blinded [⟨maxMoney-10,[0x51]⟩]

def small : BlindedM6 := blinded [⟨10,[0x51]⟩,⟨20,[0x51]⟩]

def storedTwo : FinMap SidechainNumber (List (M6id × BlindedM6)) :=
  FinMap.empty.insert 0 [(large.computeM6id,large),(small.computeM6id,small)]

def dbsTwo : Dbs :=
  { run.1 with activeSidechains := { run.1.activeSidechains with
      pendingM6ids := FinMap.empty.insert 0
        ((OrderMap.empty.insert large.computeM6id ⟨6,10⟩).insert small.computeM6id ⟨6,10⟩) } }

def suffixOf (dbs : Dbs) (stored : FinMap SidechainNumber (List (M6id × BlindedM6))) (block : Block) :
    Option (WithdrawalState × List Transaction) := do
  let state ← (handler.getWithdrawalStateAfter dbs block).toOption.join
  let suffix ← (generateSuffixTxs inOrder handler.params dbs stored state.ctips
    (some state.pendingWithdrawals)).toOption
  return (state,suffix)

theorem suffixOf_some {dbs : Dbs} {stored : FinMap SidechainNumber (List (M6id × BlindedM6))}
    {block : Block} {state : WithdrawalState} {suffix : List Transaction}
    (h : suffixOf dbs stored block = some (state,suffix)) :
    handler.getWithdrawalStateAfter dbs block = .ok (some state) ∧
      generateSuffixTxs inOrder handler.params dbs stored state.ctips
        (some state.pendingWithdrawals) = .ok suffix := by
  unfold suffixOf at h
  simp only [bind,Option.bind_eq_some_iff,Option.join_eq_some_iff] at h
  obtain ⟨state',hstate,suffix',hsuffix,heq⟩ := h
  obtain ⟨rfl,rfl⟩ := Prod.mk.inj (Option.some.inj heq)
  exact ⟨Fallible.of_toOption hstate,Fallible.of_toOption hsuffix⟩

def reportedWeight : Res (TxAcceptAction × Option (SidechainNumber × M6id) × Dbs) → ℕ
  | .ok (.accept _ tweak,_) => tweak
  | _ => 0

end ReserveSample

open ReserveSample

theorem reported_secondDeposit : Reported handler.params secondDeposit 452 := by
  have hreport : reportedWeight (handler.acceptTxWithPayout run.1 secondDeposit) = 452 := by
    decide +kernel
  cases ha : handler.acceptTxWithPayout run.1 secondDeposit with
  | error e =>
    rw [ha] at hreport
    cases hreport
  | ok r =>
    obtain ⟨action,payout,dbs'⟩ := r
    rw [ha] at hreport
    cases action with
    | reject => cases hreport
    | accept conflicts tweak =>
      obtain rfl : tweak = 452 := hreport
      exact ⟨run.1,conflicts,payout,dbs',ha⟩

theorem suffix_weight_reserved_sample : ∃ state suffix reserved,
    handler.getWithdrawalStateAfter run.1 unfinished = .ok (some state) ∧
    generateSuffixTxs inOrder handler.params run.1 stored state.ctips
      (some state.pendingWithdrawals) = .ok suffix ∧
    reservedSuffixTxs inOrder handler.params run.1 stored = .ok reserved ∧
    (suffix.map Transaction.weight).sum = 460 ∧
    (suffix.map Transaction.weight).sum ≤ (reserved.map Transaction.weight).sum+452 := by
  obtain ⟨hle,hcovers⟩ := suffix_weight_reserved handler.params stored run.1
  have hmap : (suffixOf run.1 stored unfinished).map
      (fun r => (r.2.map Transaction.weight).sum) = some 460 := by decide +kernel
  obtain ⟨⟨state,suffix⟩,hsuffix,hweight⟩ := Option.map_eq_some_iff.mp hmap
  obtain ⟨hstate,hs⟩ := suffixOf_some hsuffix
  have hmoney : ∀ s, ((suffixOf run.1 stored unfinished).map
      (fun r => r.1.ctips.treasury s)).getD 0 ≤ maxMoney := by decide +kernel
  rw [hsuffix] at hmoney
  have hnodup : ∀ s ms, stored.get? s = some ms → (ms.map Prod.fst).Nodup := by
    intro s ms hms
    rw [stored,FinMap.get?_insert] at hms
    split at hms
    · obtain rfl := Option.some.inj hms
      simp
    · simp at hms
  have hcovered := hcovers _ _ _ .bitcoin .regtest state.ctips rfl reach_run hnodup hmoney
  obtain ⟨reserved,hreserved,hbound⟩ := hle inOrder inOrder unfinished state suffix [452] hstate
    (.cons reported_secondDeposit .nil) hs hcovered
  have hm8 : (unfinished.txdata.tail.map bmmTweak).sum = 0 := by decide +kernel
  rw [hm8] at hbound
  exact ⟨state,suffix,reserved,hstate,hs,hreserved,hweight,hbound⟩

/-- With two approved bundles in a slot, the reservation may pay the first one only, and the
block the second one only. Then the block may be heavier, without any deposit. -/
theorem suffix_weight_exceeds_reserve : ∃ state suffix reserved,
    handler.getWithdrawalStateAfter dbsTwo (blockOn tip 16 [] []) = .ok (some state) ∧
    generateSuffixTxs inOrder handler.params dbsTwo storedTwo state.ctips
      (some state.pendingWithdrawals) = .ok suffix ∧
    reservedSuffixTxs inOrder handler.params dbsTwo storedTwo = .ok reserved ∧
    (reserved.map Transaction.weight).sum+
      ((blockOn tip 16 [] []).txdata.tail.map (consolidationTweak handler.params.opDrivechain)).sum <
        (suffix.map Transaction.weight).sum := by
  have hmap : (suffixOf dbsTwo storedTwo (blockOn tip 16 [] [])).map
      (fun r => (r.2.map Transaction.weight).sum) = some 336 := by decide +kernel
  have hreserve : (reservedSuffixTxs inOrder handler.params dbsTwo storedTwo).toOption.map
      (fun txs => (txs.map Transaction.weight).sum) = some 296 := by decide +kernel
  obtain ⟨⟨state,suffix⟩,hsuffix,hreal⟩ := Option.map_eq_some_iff.mp hmap
  obtain ⟨reserved,hreserved,hfake⟩ := Option.map_eq_some_iff.mp hreserve
  obtain ⟨hstate,hs⟩ := suffixOf_some hsuffix
  refine ⟨state,suffix,reserved,hstate,hs,Fallible.of_toOption hreserved,?_⟩
  have hnone : ((blockOn tip 16 [] []).txdata.tail.map
      (consolidationTweak handler.params.opDrivechain)).sum = 0 := rfl
  dsimp only at hreal
  omega

end Sample

end Bip300301Enforcer
