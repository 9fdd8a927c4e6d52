import Bip300301Enforcer.BlockHandler
import Bip300301Enforcer.Script
import Bip300301Enforcer.Lib.SortedBy

/-! The order in which the wallet sorts the outputs of a deposit. -/
namespace Bip300301Enforcer
open Lib Std

inductive TxOutKind
  | opDrivechain (s : SidechainNumber)
  | opReturnAddress (s : SidechainNumber)
  | other
deriving DecidableEq

namespace DepositTxordering

section Model

variable [Bitcoin]

/-- A treasury output, the output with the address of a sidechain, or another one. -/
def classifyTxout (op : OpDrivechain) (sidechainAddrs : FinMap (List UInt8) SidechainNumber)
    (txout : TxOut) : TxOutKind :=
  match op.parse txout.scriptPubkey with
  | some s => .opDrivechain s
  | none =>
    match (tryParseOpReturnAddress txout.scriptPubkey).bind sidechainAddrs.get? with
    | some s => .opReturnAddress s
    | none => .other

/-- The order of two outputs. Other outputs are ordered by a keyed hash. -/
def outputSort (op : OpDrivechain) (sidechainAddrs : FinMap (List UInt8) SidechainNumber)
    (hmacSha256 : TxOut → List UInt8) (l r : TxOut) : Ordering :=
  match classifyTxout op sidechainAddrs l, classifyTxout op sidechainAddrs r with
  | .opDrivechain _, .other | .opReturnAddress _, .other => .lt
  | .other, .opDrivechain _ | .other, .opReturnAddress _ => .gt
  | .opDrivechain sl, .opDrivechain sr | .opReturnAddress sl, .opReturnAddress sr => compare sl sr
  | .opDrivechain sl, .opReturnAddress sr =>
    match compare sl sr with
    | .eq => .lt
    | ordering => ordering
  | .opReturnAddress sl, .opDrivechain sr =>
    match compare sl sr with
    | .eq => .gt
    | ordering => ordering
  | .other, .other => compare (hmacSha256 l) (hmacSha256 r)

end Model

/-- The place of a kind: treasuries by slot, each before the address of its slot, and then the
others. -/
def rank : TxOutKind → ℕ
  | .opDrivechain s => 2*s.toNat
  | .opReturnAddress s => 2*s.toNat+1
  | .other => 512

def tieBreak (hmac : List UInt8) : TxOutKind → List UInt8
  | .other => hmac
  | _ => []

section Compare

variable (x y : ℕ)

theorem compare_double (i : ℕ) : compare (2*x+i) (2*y+i) = compare x y := by
  rcases Nat.lt_trichotomy x y with h | rfl | h
  · rw [Nat.compare_eq_lt.mpr h,Nat.compare_eq_lt.mpr (by omega)]
  · simp
  · rw [Nat.compare_eq_gt.mpr h,Nat.compare_eq_gt.mpr (by omega)]

theorem compare_double_succ : compare (2*x) (2*y+1) =
    match compare x y with
    | .eq => .lt
    | ordering => ordering := by
  rcases Nat.lt_trichotomy x y with h | rfl | h
  · rw [Nat.compare_eq_lt.mpr h,Nat.compare_eq_lt.mpr (by omega)]
  · simp only [Nat.compare_eq_lt.mpr (Nat.lt_succ_self (2*x)),compare_self]
  · rw [Nat.compare_eq_gt.mpr h,Nat.compare_eq_gt.mpr (by omega)]

theorem compare_succ_double : compare (2*x+1) (2*y) =
    match compare x y with
    | .eq => .gt
    | ordering => ordering := by
  rcases Nat.lt_trichotomy x y with h | rfl | h
  · rw [Nat.compare_eq_lt.mpr h,Nat.compare_eq_lt.mpr (by omega)]
  · simp only [Nat.compare_eq_gt.mpr (Nat.lt_succ_self (2*x)),compare_self]
  · rw [Nat.compare_eq_gt.mpr h,Nat.compare_eq_gt.mpr (by omega)]

end Compare

theorem compare_slot (a b : SidechainNumber) : compare a b = compare a.toNat b.toNat := by
  simp only [compare,compareOfLessAndEq,UInt8.lt_iff_toNat_lt,← UInt8.toNat_inj]

theorem rank_lt {k : TxOutKind} (hk : k ≠ .other) : rank k < 512 := by
  cases k with
  | opDrivechain s => have := s.toNat_lt; simp only [rank]; omega
  | opReturnAddress s => have := s.toNat_lt; simp only [rank]; omega
  | other => exact absurd rfl hk

theorem rank_eq_double {k : TxOutKind} {n : ℕ} (hn : n < 256) :
    rank k = 2*n ↔ k = .opDrivechain (UInt8.ofNat n) := by
  have hto : (UInt8.ofNat n).toNat = n := UInt8.toNat_ofNat_of_lt' hn
  cases k with
  | opDrivechain s =>
    rw [TxOutKind.opDrivechain.injEq,← UInt8.toNat_inj,hto]
    simp only [rank]
    omega
  | opReturnAddress s => simp only [rank,reduceCtorEq,iff_false]; omega
  | other => simp only [rank,reduceCtorEq,iff_false]; omega

theorem rank_eq_succ {k : TxOutKind} {n : ℕ} (hn : n < 256) :
    rank k = 2*n+1 ↔ k = .opReturnAddress (UInt8.ofNat n) := by
  have hto : (UInt8.ofNat n).toNat = n := UInt8.toNat_ofNat_of_lt' hn
  cases k with
  | opDrivechain s => simp only [rank,reduceCtorEq,iff_false]; omega
  | opReturnAddress s =>
    rw [TxOutKind.opReturnAddress.injEq,← UInt8.toNat_inj,hto]
    simp only [rank]
    omega
  | other => simp only [rank,reduceCtorEq,iff_false]; omega

theorem rank_eq_other {k : TxOutKind} : rank k/2 = 256 ↔ k = .other := by
  by_cases hk : k = .other
  · simp [hk,rank]
  · have := rank_lt hk
    simp only [hk,iff_false]
    omega

def slots : List SidechainNumber := (List.range 256).map UInt8.ofNat

section OutputSort

variable [Bitcoin] {op : OpDrivechain} {addrs : FinMap (List UInt8) SidechainNumber}
  {hmac : TxOut → List UInt8}

/-- Outputs are ordered by their places, and others by their hashes. -/
theorem outputSort_eq (l r : TxOut) : outputSort op addrs hmac l r =
    compareLex (compareOn (fun out => rank (classifyTxout op addrs out)))
      (compareOn (fun out => tieBreak (hmac out) (classifyTxout op addrs out))) l r := by
  have hnil : compare ([] : List UInt8) [] = .eq := rfl
  unfold outputSort compareLex compareOn
  cases hl : classifyTxout op addrs l with
  | opDrivechain sl =>
    cases hr : classifyTxout op addrs r with
    | opDrivechain sr =>
      simp only [hl,hr,rank,tieBreak,hnil,Ordering.then_eq,compare_slot]
      exact (compare_double sl.toNat sr.toNat 0).symm
    | opReturnAddress sr =>
      simp only [hl,hr,rank,tieBreak,hnil,Ordering.then_eq,compare_slot,compare_double_succ]
    | other =>
      have hlt : rank (.opDrivechain sl) < rank .other := rank_lt nofun
      simp only [hl,hr,Nat.compare_eq_lt.mpr hlt]
      rfl
  | opReturnAddress sl =>
    cases hr : classifyTxout op addrs r with
    | opDrivechain sr =>
      simp only [hl,hr,rank,tieBreak,hnil,Ordering.then_eq,compare_slot,compare_succ_double]
    | opReturnAddress sr =>
      simp only [hl,hr,rank,tieBreak,hnil,Ordering.then_eq,compare_slot,compare_double]
    | other =>
      have hlt : rank (.opReturnAddress sl) < rank .other := rank_lt nofun
      simp only [hl,hr,Nat.compare_eq_lt.mpr hlt]
      rfl
  | other =>
    cases hr : classifyTxout op addrs r with
    | opDrivechain sr =>
      have hlt : rank (.opDrivechain sr) < rank .other := rank_lt nofun
      simp only [hl,hr,Nat.compare_eq_gt.mpr hlt]
      rfl
    | opReturnAddress sr =>
      have hlt : rank (.opReturnAddress sr) < rank .other := rank_lt nofun
      simp only [hl,hr,Nat.compare_eq_gt.mpr hlt]
      rfl
    | other => simp only [hl,hr,compare_self,Ordering.eq_then,tieBreak]

theorem outputSort_transCmp : TransCmp (outputSort op addrs hmac) := by
  have heq : outputSort op addrs hmac =
      compareLex (compareOn (fun out => rank (classifyTxout op addrs out)))
        (compareOn (fun out => tieBreak (hmac out) (classifyTxout op addrs out))) := by
    funext l r
    exact outputSort_eq l r
  rw [heq]
  infer_instance

theorem rank_le {l r : TxOut} (h : (outputSort op addrs hmac l r).isLE = true) :
    rank (classifyTxout op addrs l) ≤ rank (classifyTxout op addrs r) := by
  rw [outputSort_eq,compareLex,Ordering.isLE_then_iff_and,compareOn] at h
  exact Nat.isLE_compare.mp h.1

def outputsOf (op : OpDrivechain) (addrs : FinMap (List UInt8) SidechainNumber) (kind : TxOutKind)
    (outs : List TxOut) : List TxOut := outs.filter (fun out => classifyTxout op addrs out = kind)

/-- One treasury output and one address for each slot at most, and no address without treasury. -/
structure DepositOutputs (op : OpDrivechain) (addrs : FinMap (List UInt8) SidechainNumber)
    (outs : List TxOut) : Prop where
  treasury : ∀ s, (outputsOf op addrs (.opDrivechain s) outs).length ≤ 1
  address : ∀ s, (outputsOf op addrs (.opReturnAddress s) outs).length ≤ 1
  paired : ∀ s, outputsOf op addrs (.opReturnAddress s) outs ≠ [] →
    outputsOf op addrs (.opDrivechain s) outs ≠ []

variable {outs sorted : List TxOut}

/-- Sorted outputs come slot by slot, the treasury before the address, and then the others. -/
theorem sorted_eq (hs : sorted.Pairwise (fun a b => (outputSort op addrs hmac a b).isLE = true)) :
    sorted = slots.flatMap (fun s => outputsOf op addrs (.opDrivechain s) sorted++
      outputsOf op addrs (.opReturnAddress s) sorted)++outputsOf op addrs .other sorted := by
  have hrank : sorted.Pairwise (fun a b =>
      rank (classifyTxout op addrs a) ≤ rank (classifyTxout op addrs b)) := hs.imp rank_le
  have hhalf : sorted.Pairwise (fun a b =>
      rank (classifyTxout op addrs a)/2 ≤ rank (classifyTxout op addrs b)/2) :=
    hrank.imp (fun h => Nat.div_le_div_right h)
  have hlt : ∀ out ∈ sorted, rank (classifyTxout op addrs out)/2 < 257 := by
    intro out _
    by_cases hk : classifyTxout op addrs out = .other
    · rw [hk]
      decide
    · have := rank_lt hk
      omega
  have hslot : ∀ n < 256, sorted.filter (fun out => rank (classifyTxout op addrs out)/2 = n) =
      outputsOf op addrs (.opDrivechain (UInt8.ofNat n)) sorted++
        outputsOf op addrs (.opReturnAddress (UInt8.ofNat n)) sorted := by
    intro n hn
    rw [SortedBy.split (hrank.filter _) (2*n+1),List.filter_filter,List.filter_filter]
    refine congrArg₂ _ (List.filter_congr (fun out _ => ?_)) (List.filter_congr (fun out _ => ?_))
    · rw [← Bool.decide_and,decide_eq_decide,← rank_eq_double hn]
      omega
    · rw [← Bool.decide_and,decide_eq_decide,← rank_eq_succ hn]
      omega
  have hother : sorted.filter (fun out => rank (classifyTxout op addrs out)/2 = 256) =
      outputsOf op addrs .other sorted :=
    List.filter_congr (fun out _ => decide_eq_decide.mpr rank_eq_other)
  rw [slots,List.flatMap_map,← hother]
  refine (SortedBy.eq_flatMap_filter hhalf 257 hlt).trans ?_
  rw [List.range_succ,List.flatMap_append,List.flatMap_singleton]
  exact congrArg (·++_) (List.flatMap_congr (fun n hn => hslot n (List.mem_range.mp hn)))

/-- The output after a treasury is the address of its slot, if there is one. -/
theorem address_follows (hd : DepositOutputs op addrs outs) (hp : sorted.Perm outs)
    (hs : sorted.Pairwise (fun a b => (outputSort op addrs hmac a b).isLE = true)) {i : ℕ}
    {treasury address : TxOut} {s : SidechainNumber} (hi : sorted[i]? = some treasury)
    (htreasury : classifyTxout op addrs treasury = .opDrivechain s) (ha : address ∈ outs)
    (haddress : classifyTxout op addrs address = .opReturnAddress s) :
    sorted[i+1]? = some address := by
  have hone : ∀ kind, (outputsOf op addrs kind outs).length ≤ 1 →
      (sorted.filter (fun out => classifyTxout op addrs out = kind)).length ≤ 1 :=
    fun kind h => (SortedBy.filter_eq_of_perm hp h).symm ▸ h
  have hmono : ∀ {k j : ℕ} {a b}, sorted[k]? = some a → sorted[j]? = some b → k ≤ j →
      rank (classifyTxout op addrs a) ≤ rank (classifyTxout op addrs b) := by
    intro k j a b hk hj hkj
    obtain ⟨hk',rfl⟩ := List.getElem?_eq_some_iff.mp hk
    obtain ⟨hj',rfl⟩ := List.getElem?_eq_some_iff.mp hj
    rcases Nat.lt_or_eq_of_le hkj with hlt | rfl
    · exact rank_le (List.pairwise_iff_getElem.mp hs k j hk' hj' hlt)
    · exact Nat.le_refl _
  obtain ⟨j,hj⟩ := List.mem_iff_getElem?.mp (hp.mem_iff.mpr ha)
  have hlt : i < j := by
    by_contra hge
    have hle := hmono hj hi (Nat.not_lt.mp hge)
    rw [htreasury,haddress] at hle
    exact Nat.not_succ_le_self _ hle
  obtain ⟨hj',-⟩ := List.getElem?_eq_some_iff.mp hj
  obtain ⟨next,hnext⟩ : ∃ next, sorted[i+1]? = some next :=
    ⟨_,List.getElem?_eq_getElem (Nat.lt_of_le_of_lt hlt hj')⟩
  have hlow := hmono hi hnext (Nat.le_succ i)
  have hhigh := hmono hnext hj hlt
  rw [htreasury] at hlow
  rw [haddress] at hhigh
  change 2*s.toNat ≤ _ at hlow
  change _ ≤ 2*s.toNat+1 at hhigh
  have hslot : s.toNat < 256 := s.toNat_lt
  have hs' : UInt8.ofNat s.toNat = s := UInt8.ofNat_toNat
  -- the rank of the next output is that of the treasury or that of the address
  rcases Nat.lt_or_eq_of_le hlow with hgt | heq
  · have hkind : classifyTxout op addrs next = .opReturnAddress s := by
      rw [← hs']
      exact (rank_eq_succ hslot).mp (by omega)
    obtain rfl := SortedBy.eq_of_getElem? (hone _ (hd.address s)) hnext hj (by simp [hkind])
      (by simp [haddress])
    exact hj
  · have hkind : classifyTxout op addrs next = .opDrivechain s := by
      rw [← hs']
      exact (rank_eq_double hslot).mp heq.symm
    have hsame := SortedBy.eq_of_getElem? (hone _ (hd.treasury s)) hi hnext (by simp [htreasury])
      (by simp [hkind])
    omega

/-- The order is total and transitive, and outputs that are sorted by it have each treasury
directly before the address of its slot, slot by slot and before the others. So what raises a
treasury and has an address is a deposit to it. -/
theorem deposit_txordering (op : OpDrivechain) (addrs : FinMap (List UInt8) SidechainNumber)
    (hmac : TxOut → List UInt8) :
    (∀ a b, outputSort op addrs hmac b a = (outputSort op addrs hmac a b).swap) ∧
    (∀ a b c, (outputSort op addrs hmac a b).isLE = true → (outputSort op addrs hmac b c).isLE = true →
      (outputSort op addrs hmac a c).isLE = true) ∧
    (∀ a b c, outputSort op addrs hmac a b = .eq →
      outputSort op addrs hmac a c = outputSort op addrs hmac b c) ∧
    ∀ outs sorted : List TxOut, DepositOutputs op addrs outs → sorted.Perm outs →
      sorted.Pairwise (fun a b => (outputSort op addrs hmac a b).isLE = true) →
      sorted = slots.flatMap (fun s => outputsOf op addrs (.opDrivechain s) outs++
        outputsOf op addrs (.opReturnAddress s) outs)++outputsOf op addrs .other sorted ∧
      ∀ (dbs : ActiveSidechainDbs) (tx : Transaction) (s : SidechainNumber) (info : TxCtipsInfo)
          (treasury address : TxOut), tx.output = sorted →
        tx.output[info.ctipOutput.outpoint.vout]? = some treasury →
        classifyTxout op addrs treasury = .opDrivechain s → address ∈ outs →
        classifyTxout op addrs address = .opReturnAddress s →
        info.treasuryValueIn < info.ctipOutput.value →
        ∃ deposit, BlockHandler.makeDeposit dbs tx s info = .ok (some deposit) ∧
          tryParseOpReturnAddress address.scriptPubkey = some deposit.address ∧
          addrs.get? deposit.address = some s := by
  have hcmp : TransCmp (outputSort op addrs hmac) := outputSort_transCmp
  refine ⟨fun a b => hcmp.eq_swap,fun a b c => hcmp.isLE_trans,fun a b c hab => TransCmp.congr_left hab,
    fun outs sorted hd hp hs => ⟨?_,?_⟩⟩
  · have hsame : ∀ s, outputsOf op addrs (.opDrivechain s) sorted++
          outputsOf op addrs (.opReturnAddress s) sorted =
        outputsOf op addrs (.opDrivechain s) outs++outputsOf op addrs (.opReturnAddress s) outs :=
      fun s => congrArg₂ _ (SortedBy.filter_eq_of_perm hp (hd.treasury s))
        (SortedBy.filter_eq_of_perm hp (hd.address s))
    simp only [← hsame]
    exact sorted_eq hs
  · rintro dbs tx s info treasury address rfl htx htreasury ha haddress hlt
    have hnext := address_follows hd hp hs htx htreasury ha haddress
    obtain ⟨data,hdata,hs⟩ : ∃ data, tryParseOpReturnAddress address.scriptPubkey = some data ∧
        addrs.get? data = some s := by
      unfold classifyTxout at haddress
      split at haddress
      · cases haddress
      · split at haddress
        · rename_i hget
          obtain rfl := TxOutKind.opReturnAddress.inj haddress
          exact Option.bind_eq_some_iff.mp hget
        · cases haddress
    rw [BlockHandler.makeDeposit,if_pos hlt,hnext]
    simp only [Fallible.require_some,Fallible.ok_bind,hdata]
    exact ⟨_,rfl,rfl,hs⟩

end OutputSort

section Sample

open Sample

namespace OrderingSample

def addrs : FinMap (List UInt8) SidechainNumber := FinMap.empty.insert [9,9] 1

def change : TxOut := ⟨30,[0x51]⟩

def address : TxOut := ⟨0,newOpReturn [9,9]⟩

def treasury (s : SidechainNumber) : TxOut := ⟨70,OpDrivechain.nop5.script s⟩

def outs : List TxOut := [change,treasury 1,address,treasury 0]

def sorted : List TxOut := [treasury 0,treasury 1,address,change]

theorem mem_slots (s : SidechainNumber) : s ∈ slots :=
  List.mem_map.mpr ⟨s.toNat,List.mem_range.mpr s.toNat_lt,UInt8.ofNat_toNat⟩

theorem depositOutputs : DepositOutputs .nop5 addrs outs := by
  have hall : ∀ s ∈ slots, (outputsOf .nop5 addrs (.opDrivechain s) outs).length ≤ 1 ∧
      (outputsOf .nop5 addrs (.opReturnAddress s) outs).length ≤ 1 ∧
      (outputsOf .nop5 addrs (.opReturnAddress s) outs ≠ [] →
        outputsOf .nop5 addrs (.opDrivechain s) outs ≠ []) := by decide +kernel
  exact ⟨fun s => (hall s (mem_slots s)).1,fun s => (hall s (mem_slots s)).2.1,
    fun s => (hall s (mem_slots s)).2.2⟩

end OrderingSample

open OrderingSample

theorem deposit_txordering_sample :
    ∃ deposit, BlockHandler.makeDeposit .empty ⟨2,0,[],sorted⟩ 1
        ⟨some ⟨⟨5,0⟩,50⟩,[],⟨⟨6,1⟩,70⟩⟩ = .ok (some deposit) ∧ deposit.address = [9,9] := by
  obtain ⟨-,-,-,hsorted⟩ := deposit_txordering .nop5 addrs TxOut.scriptPubkey
  obtain ⟨-,hdeposit⟩ := hsorted outs sorted depositOutputs (by decide) (by decide +kernel)
  obtain ⟨deposit,hmake,haddress,-⟩ := hdeposit .empty ⟨2,0,[],sorted⟩ 1
    ⟨some ⟨⟨5,0⟩,50⟩,[],⟨⟨6,1⟩,70⟩⟩ (treasury 1) address rfl rfl (by decide +kernel) (by decide)
    (by decide +kernel) (by decide)
  have hread : tryParseOpReturnAddress address.scriptPubkey = some [9,9] := by decide +kernel
  exact ⟨deposit,hmake,(Option.some.inj (hread.symm.trans haddress)).symm⟩

end Sample

end DepositTxordering
end Bip300301Enforcer
