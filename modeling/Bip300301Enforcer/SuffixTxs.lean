import Bip300301Enforcer.M6ids
import Bip300301Enforcer.Suffix

/-! What the withdrawals at the end of a block do to the treasuries. -/
namespace Bip300301Enforcer
open Lib

def spendAll (l : List Ctip) : List TxIn := l.map (fun c => .spending c.outpoint)

namespace BlindedM6

def demand (m : BlindedM6) : ℕ := m.fee+m.payout

/-- The withdrawal that spends the given treasury outputs. -/
def m6Tx (m : BlindedM6) (op : OpDrivechain) (s : SidechainNumber) (inputs : List Ctip) :
    Transaction :=
  { m.tx with
    input := inputs.map (fun ctip => .spending ctip.outpoint)
    output := ⟨(inputs.map Ctip.value).sum-m.demand,op.script s⟩::m.tx.output.tail }

theorem intoM6_eq {m : BlindedM6} {c : Ctip} {u : List Ctip} (op : OpDrivechain) (s : SidechainNumber)
    (hsum : ((c::u).map Ctip.value).sum < 2^64) (hd : m.demand ≤ ((c::u).map Ctip.value).sum) :
    m.intoM6 op s c u = .ok (m.m6Tx op s (c::u)) := by
  have hd' := hd
  unfold demand at hd'
  have htotal : checkedSum ((c::u).map Ctip.value) = some ((c::u).map Ctip.value).sum :=
    checkedSum_some.mpr ⟨rfl,hsum⟩
  have hp : checkedSub ((c::u).map Ctip.value).sum m.payout =
      some (((c::u).map Ctip.value).sum-m.payout) := checkedSub_some.mpr ⟨by omega,rfl⟩
  have hf : checkedSub (((c::u).map Ctip.value).sum-m.payout) m.fee =
      some (((c::u).map Ctip.value).sum-m.demand) :=
    checkedSub_some.mpr ⟨by omega,by unfold demand; omega⟩
  simp only [intoM6,htotal,hp,hf,Fallible.require_some,Fallible.ok_bind]
  rfl

end BlindedM6

namespace UnconsolidatedCtips

theorem removeSidechain_get? (u : UnconsolidatedCtips) (s a : SidechainNumber) :
    (u.removeSidechain s).2.bySidechain.get? a = if s = a then none else u.bySidechain.get? a := by
  rw [removeSidechain,FinMap.get?_erase]

/-- Some of the treasury outputs are left. -/
structure Sub (u' u : UnconsolidatedCtips) : Prop where
  byOutpoint : ∀ o e, u'.byOutpoint.get? o = some e → u.byOutpoint.get? o = some e
  bySidechain : ∀ s l, u'.bySidechain.get? s = some l → u.bySidechain.get? s = some l

theorem Sub.refl (u : UnconsolidatedCtips) : Sub u u := ⟨fun _ _ h => h,fun _ _ h => h⟩

theorem Sub.trans {u u' u'' : UnconsolidatedCtips} (h' : Sub u'' u') (h : Sub u' u) : Sub u'' u :=
  ⟨fun o e ho => h.byOutpoint o e (h'.byOutpoint o e ho),
    fun s l hs => h.bySidechain s l (h'.bySidechain s l hs)⟩

theorem removeSidechain_sub (u : UnconsolidatedCtips) (s : SidechainNumber) :
    Sub (u.removeSidechain s).2 u := by
  constructor
  · have herase : ∀ (l : List Ctip) (m : FinMap OutPoint (SidechainNumber × ℕ)) o e,
        (l.foldl (fun m c => m.erase c.outpoint) m).get? o = some e → m.get? o = some e := by
      intro l
      induction l with
      | nil => intro m o e ho; exact ho
      | cons c l ih =>
        intro m o e ho
        have hm := ih _ o e ho
        rw [FinMap.get?_erase] at hm
        split at hm
        · cases hm
        · exact hm
    exact herase _ _
  · intro a l ha
    rw [removeSidechain_get?] at ha
    split at ha
    · cases ha
    · exact ha

theorem removeSidechain_default (s : SidechainNumber) : (default.removeSidechain s).2 = default := by
  have herase : (FinMap.empty : FinMap SidechainNumber (List Ctip)).erase s = .empty := by
    apply FinMap.ext
    intro a
    rw [FinMap.get?_erase]
    simp
  simp [removeSidechain,default,herase]

end UnconsolidatedCtips

namespace Ctips

def unconsolidatedOf (ctips : Ctips) (s : SidechainNumber) : List Ctip :=
  (ctips.unconsolidated.getBySidechain s).getD []

def treasury (ctips : Ctips) (s : SidechainNumber) : ℕ :=
  ((ctips.consolidated.get? s).map Ctip.value).getD 0+((ctips.unconsolidatedOf s).map Ctip.value).sum

theorem treasury_of_ctip {ctips : Ctips} {s : SidechainNumber} {c : Ctip}
    (hc : ctips.consolidated.get? s = some c) :
    ctips.treasury s = ((c::ctips.unconsolidatedOf s).map Ctip.value).sum := by
  simp [treasury,hc]

variable [Bitcoin]

/-- The treasuries after a withdrawal that spends the given treasury outputs. -/
def afterM6 (ctips : Ctips) (op : OpDrivechain) (s : SidechainNumber) (inputs : List Ctip)
    (m : BlindedM6) : Ctips :=
  ⟨ctips.consolidated.insert s
      ⟨⟨(m.m6Tx op s inputs).computeTxid,0⟩,(inputs.map Ctip.value).sum-m.demand⟩,
    (ctips.unconsolidated.removeSidechain s).2⟩

theorem treasury_afterM6_le {ctips : Ctips} {s : SidechainNumber} {c : Ctip}
    (hc : ctips.consolidated.get? s = some c) (op : OpDrivechain) (m : BlindedM6)
    (a : SidechainNumber) :
    (ctips.afterM6 op s (c::ctips.unconsolidatedOf s) m).treasury a ≤ ctips.treasury a := by
  unfold treasury unconsolidatedOf afterM6 UnconsolidatedCtips.getBySidechain
  rw [UnconsolidatedCtips.removeSidechain_get?,FinMap.get?_insert]
  by_cases ha : s = a
  · subst ha
    simp only [if_true,hc,Option.map_some,Option.getD_some,Option.getD_none,List.map_nil,List.sum_nil,
      List.map_cons,List.sum_cons]
    omega
  · simp only [if_neg ha,Nat.le_refl]

end Ctips

namespace BlockProducer

section Finalize

theorem newTreasuryValue_eq (value fee payout : ℕ) : newTreasuryValue value fee payout =
    if fee+payout ≤ value then .ok (value-(fee+payout)) else .error .amountUnderflow := by
  unfold newTreasuryValue checkedSub
  by_cases hf : fee ≤ value
  · by_cases hp : payout ≤ value-fee
    · simp only [hf,hp,if_true,Option.bind_some,Fallible.require_some,Nat.sub_sub,
        show fee+payout ≤ value by omega]
    · simp only [hf,hp,if_true,if_false,Option.bind_some,Fallible.require_none,
        show ¬ fee+payout ≤ value by omega]
  · simp only [hf,if_false,Option.bind_none,Fallible.require_none,
      show ¬ fee+payout ≤ value by omega]

variable [Bitcoin]

/-- A withdrawal can be made when the treasury is an amount and suffices for the bundle. -/
theorem finalizeM6_eq (op : OpDrivechain) (s : SidechainNumber) (c : Ctip) (u : List Ctip)
    (m : BlindedM6) : finalizeM6 op s c u m =
      if ((c::u).map Ctip.value).sum < 2^64 then
        if m.demand ≤ ((c::u).map Ctip.value).sum then
          .ok (m.m6Tx op s (c::u),
            ⟨⟨(m.m6Tx op s (c::u)).computeTxid,0⟩,((c::u).map Ctip.value).sum-m.demand⟩)
        else .error .amountUnderflow
      else .error .panic := by
  unfold finalizeM6
  by_cases hsum : ((c::u).map Ctip.value).sum < 2^64
  · have hsome : checkedSum ((c::u).map Ctip.value) = some ((c::u).map Ctip.value).sum :=
      checkedSum_some.mpr ⟨rfl,hsum⟩
    rw [if_pos hsum,hsome,Fallible.require_some,Fallible.ok_bind,newTreasuryValue_eq]
    by_cases hd : m.demand ≤ ((c::u).map Ctip.value).sum
    · have hd' : m.fee+m.payout ≤ ((c::u).map Ctip.value).sum := hd
      rw [if_pos hd,if_pos hd',Fallible.ok_bind,BlindedM6.intoM6_eq op s hsum hd,Fallible.ok_bind]
      rfl
    · have hd' : ¬ m.fee+m.payout ≤ ((c::u).map Ctip.value).sum := hd
      rw [if_neg hd,if_neg hd',Fallible.error_bind]
  · have hnone : checkedSum ((c::u).map Ctip.value) = none := by
      cases hs : checkedSum ((c::u).map Ctip.value) with
      | none => rfl
      | some n =>
        obtain ⟨rfl,hlt⟩ := checkedSum_some.mp hs
        exact absurd hlt hsum
    rw [if_neg hsum,hnone,Fallible.require_none,Fallible.error_bind]

end Finalize

section Payments

/-- The bundles that have more votes than the threshold. -/
def approved (threshold : UInt16) (m6ids : BundleProposals) : List BlindedM6 :=
  m6ids.filterMap (fun m =>
    match m.2.2 with
    | none => none
    | some info => if info.voteCount ≤ threshold then none else some m.2.1)

variable [Bitcoin]

def payApproved (op : OpDrivechain) (s : SidechainNumber) :
    List BlindedM6 → Ctips → Except IntoM6Error (List Transaction × Ctips)
  | [], ctips => .ok ([],ctips)
  | m::rest, ctips =>
    match ctips.consolidated.get? s with
    | none => .ok ([],ctips)
    | some c =>
      match finalizeM6 op s c (ctips.unconsolidatedOf s) m with
      | .error .panic => .error .panic
      | .error .amountUnderflow => payApproved op s rest ctips
      | .ok (m6,successor) => do
        let (txs,ctips) ← payApproved op s rest ⟨ctips.consolidated.insert s successor,
          (ctips.unconsolidated.removeSidechain s).2⟩
        return (m6::txs,ctips)

theorem payBundles_eq (params : NetworkParams) (s : SidechainNumber) (l : BundleProposals)
    (ctips : Ctips) : payBundles params s l ctips = payApproved params.opDrivechain s
      (approved params.thresholds.withdrawalBundleInclusionThreshold l) ctips := by
  induction l generalizing ctips with
  | nil => rfl
  | cons b l ih =>
    obtain ⟨m6id,m,info⟩ := b
    cases info with
    | none => exact ih ctips
    | some info =>
      by_cases hv : info.voteCount ≤ params.thresholds.withdrawalBundleInclusionThreshold
      · simp only [payBundles,if_pos hv,ih]
        simp only [approved,List.filterMap_cons,if_pos hv]
      · simp only [payBundles,if_neg hv,ih]
        simp only [approved,List.filterMap_cons,if_neg hv,payApproved]
        rfl

/-- What paying approved bundles of a slot does to the treasuries. -/
inductive Pays (op : OpDrivechain) (s : SidechainNumber) :
    List BlindedM6 → Ctips → List Transaction → Ctips → Prop
  | done {ctips : Ctips} : Pays op s [] ctips [] ctips
  | noTreasury {m : BlindedM6} {rest : List BlindedM6} {ctips : Ctips}
      (missing : ctips.consolidated.get? s = none) : Pays op s (m::rest) ctips [] ctips
  | skipped {m : BlindedM6} {rest : List BlindedM6} {ctips ctips' : Ctips} {c : Ctip}
      {txs : List Transaction} (ctip : ctips.consolidated.get? s = some c)
      (amount : ((c::ctips.unconsolidatedOf s).map Ctip.value).sum < 2^64)
      (exceeds : ((c::ctips.unconsolidatedOf s).map Ctip.value).sum < m.demand)
      (others : Pays op s rest ctips txs ctips') : Pays op s (m::rest) ctips txs ctips'
  | paid {m : BlindedM6} {rest : List BlindedM6} {ctips ctips' : Ctips} {c : Ctip}
      {txs : List Transaction} (ctip : ctips.consolidated.get? s = some c)
      (amount : ((c::ctips.unconsolidatedOf s).map Ctip.value).sum < 2^64)
      (enough : m.demand ≤ ((c::ctips.unconsolidatedOf s).map Ctip.value).sum)
      (others : Pays op s rest (ctips.afterM6 op s (c::ctips.unconsolidatedOf s) m) txs ctips') :
      Pays op s (m::rest) ctips (m.m6Tx op s (c::ctips.unconsolidatedOf s)::txs) ctips'

theorem payApproved_ok {op : OpDrivechain} {s : SidechainNumber} {l : List BlindedM6}
    {ctips ctips' : Ctips} {txs : List Transaction} :
    payApproved op s l ctips = .ok (txs,ctips') ↔ Pays op s l ctips txs ctips' := by
  constructor
  · intro h
    induction l generalizing ctips txs with
    | nil =>
      obtain ⟨rfl,rfl⟩ := Prod.mk.inj (Except.ok.inj h)
      exact .done
    | cons m l ih =>
      unfold payApproved at h
      cases hc : ctips.consolidated.get? s with
      | none =>
        rw [hc] at h
        obtain ⟨rfl,rfl⟩ := Prod.mk.inj (Except.ok.inj h)
        exact .noTreasury hc
      | some c =>
        simp only [hc,finalizeM6_eq] at h
        by_cases hsum : ((c::ctips.unconsolidatedOf s).map Ctip.value).sum < 2^64
        · by_cases hd : m.demand ≤ ((c::ctips.unconsolidatedOf s).map Ctip.value).sum
          · simp only [if_pos hsum,if_pos hd,Fallible.bind_ok,Fallible.pure_ok,Prod.mk.injEq] at h
            obtain ⟨⟨txs',ctips₁⟩,hrest,rfl,rfl⟩ := h
            exact .paid hc hsum hd (ih hrest)
          · simp only [if_pos hsum,if_neg hd] at h
            exact .skipped hc hsum (Nat.lt_of_not_le hd) (ih h)
        · simp only [if_neg hsum] at h
          cases h
  · intro h
    induction h with
    | done => rfl
    | noTreasury missing => simp only [payApproved,missing]
    | skipped ctip amount exceeds others ih =>
      simp only [payApproved,ctip,finalizeM6_eq,if_pos amount,if_neg (Nat.not_le_of_lt exceeds),ih]
    | paid ctip amount enough others ih =>
      unfold Ctips.afterM6 at ih
      simp only [payApproved,ctip,finalizeM6_eq,if_pos amount,if_pos enough,ih]
      rfl

theorem Pays.sub {op : OpDrivechain} {s : SidechainNumber} {l : List BlindedM6}
    {ctips ctips' : Ctips} {txs : List Transaction} (h : Pays op s l ctips txs ctips') :
    UnconsolidatedCtips.Sub ctips'.unconsolidated ctips.unconsolidated := by
  induction h with
  | done => exact .refl _
  | noTreasury missing => exact .refl _
  | skipped _ _ _ _ ih => exact ih
  | paid _ _ _ _ ih => exact ih.trans (UnconsolidatedCtips.removeSidechain_sub _ s)

theorem Pays.treasury_le {op : OpDrivechain} {s : SidechainNumber} {l : List BlindedM6}
    {ctips ctips' : Ctips} {txs : List Transaction} (h : Pays op s l ctips txs ctips')
    (a : SidechainNumber) : ctips'.treasury a ≤ ctips.treasury a := by
  induction h with
  | done => exact Nat.le_refl _
  | noTreasury missing => exact Nat.le_refl _
  | skipped _ _ _ _ ih => exact ih
  | paid ctip _ _ _ ih => exact ih.trans (Ctips.treasury_afterM6_le ctip op _ a)

theorem Pays.consolidated_ne {op : OpDrivechain} {s a : SidechainNumber} {l : List BlindedM6}
    {ctips ctips' : Ctips} {txs : List Transaction} (h : Pays op s l ctips txs ctips') (ha : s ≠ a) :
    ctips'.consolidated.get? a = ctips.consolidated.get? a := by
  induction h with
  | done => rfl
  | noTreasury missing => rfl
  | skipped _ _ _ _ ih => exact ih
  | paid _ _ _ _ ih => rw [ih,Ctips.afterM6,FinMap.get?_insert_ne _ _ ha]

/-- What paying the approved bundles of all slots does to the treasuries. -/
inductive PaysAll (op : OpDrivechain) (threshold : UInt16) :
    List (SidechainNumber × BundleProposals) → Ctips → List Transaction → Ctips → Prop
  | nil {ctips : Ctips} : PaysAll op threshold [] ctips [] ctips
  | cons {s : SidechainNumber} {m6ids : BundleProposals}
      {rest : List (SidechainNumber × BundleProposals)} {ctips ctips₁ ctips' : Ctips}
      {txs txs' : List Transaction}
      (slot : Pays op s (approved threshold m6ids) ctips txs ctips₁)
      (others : PaysAll op threshold rest ctips₁ txs' ctips') :
      PaysAll op threshold ((s,m6ids)::rest) ctips (txs++txs') ctips'

theorem payAll_ok {params : NetworkParams} {l : List (SidechainNumber × BundleProposals)}
    {ctips ctips' : Ctips} {txs : List Transaction} :
    payAll params l ctips = .ok (txs,ctips') ↔ PaysAll params.opDrivechain
      params.thresholds.withdrawalBundleInclusionThreshold l ctips txs ctips' := by
  constructor
  · intro h
    induction l generalizing ctips txs with
    | nil =>
      obtain ⟨rfl,rfl⟩ := Prod.mk.inj (Except.ok.inj h)
      exact .nil
    | cons e l ih =>
      simp only [payAll,Fallible.bind_ok,Fallible.pure_ok,Prod.mk.injEq] at h
      obtain ⟨⟨txs₁,ctips₁⟩,hslot,⟨txs₂,ctips₂⟩,hrest,rfl,rfl⟩ := h
      rw [payBundles_eq,payApproved_ok] at hslot
      exact .cons hslot (ih hrest)
  · intro h
    induction h with
    | nil => rfl
    | cons slot others ih =>
      rw [← payApproved_ok,← payBundles_eq] at slot
      simp only [payAll,slot,ih,Fallible.ok_bind]
      rfl

theorem PaysAll.sub {op : OpDrivechain} {threshold : UInt16}
    {l : List (SidechainNumber × BundleProposals)} {ctips ctips' : Ctips} {txs : List Transaction}
    (h : PaysAll op threshold l ctips txs ctips') :
    UnconsolidatedCtips.Sub ctips'.unconsolidated ctips.unconsolidated := by
  induction h with
  | nil => exact .refl _
  | cons slot others ih => exact ih.trans slot.sub

end Payments

end BlockProducer
end Bip300301Enforcer
