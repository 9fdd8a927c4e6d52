import Bip300301Enforcer.BlindedM6
import Bip300301Enforcer.MessageCanonical

/-! The id of a bundle is computed from its blinded transaction when the bundle is stored,
and from the withdrawal when a block is validated. -/
namespace Bip300301Enforcer
open Lib Bytes

section Bytes

theorem toBeBytes_eq (n : ℕ) : toBeBytes n = (leBytes 8 n).reverse := by
  simp [toBeBytes,leBytes,List.range_succ]

theorem fromBeBytes_eq (bytes : List UInt8) : fromBeBytes bytes = leNat bytes.reverse := by
  rw [fromBeBytes,leNat,List.foldr_reverse]
  congr 1
  funext n b
  omega

theorem toBeBytes_fromBeBytes {bytes : List UInt8} (h : bytes.length = 8) :
    toBeBytes (fromBeBytes bytes) = bytes := by
  have hlen : bytes.reverse.length = 8 := by rw [List.length_reverse,h]
  have hback := leBytes_leNat bytes.reverse
  rw [hlen] at hback
  rw [toBeBytes_eq,fromBeBytes_eq,hback,List.reverse_reverse]

end Bytes

section Amounts

theorem foldlM_checkedAdd_some {l : List ℕ} {a n : ℕ} :
    l.foldlM checkedAdd a = some n ↔ a+l.sum = n ∧ (l = [] ∨ n < 2^64) := by
  induction l generalizing a with
  | nil => simp
  | cons b l ih =>
    rw [List.foldlM_cons,Option.bind_eq_bind,Option.bind_eq_some_iff]
    simp only [ih,checkedAdd_some,List.sum_cons]
    grind

theorem checkedSum_some {l : List ℕ} {n : ℕ} : checkedSum l = some n ↔ l.sum = n ∧ n < 2^64 := by
  rw [checkedSum,foldlM_checkedAdd_some,Nat.zero_add]
  constructor
  · rintro ⟨rfl,rfl | hlt⟩
    · exact ⟨rfl,by decide⟩
    · exact ⟨rfl,hlt⟩
  · rintro ⟨hs,hlt⟩
    exact ⟨hs,.inr hlt⟩

end Amounts

namespace OpDrivechain

@[simp] theorem parse_script (op : OpDrivechain) (s : SidechainNumber) :
    op.parse (op.script s) = some s := by
  simp [parse,script,Parse.tag,Parse.takeByte,Parse.eof]

end OpDrivechain

namespace BlindedM6

variable [Bitcoin]

theorem tryFrom_ok {tx : Transaction} {m : BlindedM6} (h : tryFrom tx = .ok m) :
    ∃ spk payouts, m.tx = tx ∧ tx.input = [] ∧ tx.output = ⟨0,spk⟩::payouts ∧
      (payouts.map TxOut.value).sum = m.payout ∧ m.payout < 2^64 ∧ readFee spk = .ok m.fee := by
  unfold tryFrom at h
  simp only [Fallible.bind_ok,Fallible.ensure_ok,Fallible.require_ok,Fallible.pure_ok] at h
  obtain ⟨_,hin,feeOutput,hhead,_,hzero,payout,hsum,_,_,fee,hfee,rfl⟩ := h
  cases hout : tx.output with
  | nil =>
    rw [hout] at hhead
    cases hhead
  | cons first payouts =>
    rw [hout] at hhead hsum
    obtain rfl := Option.some.inj hhead
    obtain ⟨hsum,hlt⟩ := checkedSum_some.mp hsum
    have hzero : first.value = 0 := of_decide_eq_true hzero
    rw [List.map_cons,List.sum_cons,hzero,Nat.zero_add] at hsum
    refine ⟨first.scriptPubkey,payouts,rfl,List.isEmpty_iff.mp hin,?_,hsum,hlt,hfee⟩
    rw [← hzero]

theorem readFee_ok {spk : Script} {fee : ℕ} (h : readFee spk = .ok fee) :
    ∃ feeBeBytes, instructions spk = [some (.op opReturn),some (.pushBytes feeBeBytes)] ∧
      feeBeBytes.length = 8 ∧ fee = fromBeBytes feeBeBytes := by
  unfold readFee at h
  grind

def reblinded (m : BlindedM6) : Transaction :=
  { m.tx with output := OpDrivechain.feeOutput m.fee::m.tx.output.tail }

theorem computeM6id_intoM6 {op : OpDrivechain} {s : SidechainNumber} {blinded tx : Transaction}
    {m : BlindedM6} {ctip : Ctip} {unconsolidated : List Ctip} (hm : tryFrom blinded = .ok m)
    (htx : m.intoM6 op s ctip unconsolidated = .ok tx) :
    op.computeM6id tx (ctip.value+(unconsolidated.map Ctip.value).sum) =
      .ok (m.reblinded.computeTxid,s) := by
  obtain ⟨spk,payouts,rfl,hin,hout,hsum,hlt,hfee⟩ := tryFrom_ok hm
  unfold intoM6 at htx
  simp only [Fallible.bind_ok,Fallible.require_ok,Fallible.pure_ok,checkedSum_some,
    checkedSub_some,List.map_cons,List.sum_cons] at htx
  obtain ⟨total,⟨rfl,htotal⟩,_,⟨hpay,rfl⟩,_,⟨hleft,rfl⟩,rfl⟩ := htx
  have hpayouts : checkedSum (payouts.map TxOut.value) = some m.payout :=
    checkedSum_some.mpr ⟨hsum,hlt⟩
  have hadd : checkedAdd (ctip.value+(unconsolidated.map Ctip.value).sum-m.payout-m.fee) m.payout =
      some (ctip.value+(unconsolidated.map Ctip.value).sum-m.fee) :=
    checkedAdd_some.mpr (by omega)
  have hsub : checkedSub (ctip.value+(unconsolidated.map Ctip.value).sum)
      (ctip.value+(unconsolidated.map Ctip.value).sum-m.fee) = some m.fee :=
    checkedSub_some.mpr (by omega)
  simp only [OpDrivechain.computeM6id,OpDrivechain.parse_script,Fallible.require_some,
    Fallible.ok_bind,Fallible.ensure,List.isEmpty_cons,Bool.not_false,if_true,hout,List.tail_cons,
    hpayouts,hadd,hsub,reblinded,hin]
  rfl

/-- The fee output is written anew as it was exactly if its push is in the shortest form. -/
theorem reblinded_eq_iff (hinstr : ∀ script, instructions script = Script.instructions script)
    (hnew : ∀ data : List UInt8, data.length < 2^32 → newOpReturn data = Script.newOpReturn data)
    {blinded : Transaction} {m : BlindedM6} (hm : tryFrom blinded = .ok m) :
    m.reblinded = m.tx ↔ ∀ feeOutput ∈ blinded.output.head?,
      Script.MinimalPush feeOutput.scriptPubkey := by
  obtain ⟨spk,payouts,rfl,hin,hout,_,_,hread⟩ := tryFrom_ok hm
  obtain ⟨feeBeBytes,hi,hlen,hfee⟩ := readFee_ok hread
  rw [hinstr] at hi
  obtain ⟨head,rfl,hhead⟩ := Script.instructions_op_push hi
  have hwrite : OpDrivechain.feeOutput m.fee = ⟨0,opReturn::Script.pushSlice feeBeBytes⟩ := by
    rw [OpDrivechain.feeOutput,hfee,toBeBytes_fromBeBytes hlen,hnew _ hhead.lt]
    rfl
  have hmin : (∀ feeOutput ∈ m.tx.output.head?, Script.MinimalPush feeOutput.scriptPubkey) ↔
      Script.MinimalPush (opReturn::(head++feeBeBytes)) := by
    rw [hout]
    simp
  have hsame : m.reblinded = m.tx ↔
      OpDrivechain.feeOutput m.fee::payouts = ⟨0,opReturn::(head++feeBeBytes)⟩::payouts := by
    have htail : m.tx.output.tail = payouts := by rw [hout,List.tail_cons]
    rw [← hout,← htail]
    constructor
    · intro he
      exact congrArg Transaction.output he
    · intro he
      rw [reblinded,he]
  rw [hmin,hsame,hwrite,Script.minimalPush_iff hhead]
  simp

end BlindedM6

section Agreement

variable [Bitcoin]

/-- Producer and validator agree on the id of a bundle exactly if the push of its fee is in
the shortest form. -/
theorem computeM6id_agrees_iff
    (hinstr : ∀ script, instructions script = Script.instructions script)
    (hnew : ∀ data : List UInt8, data.length < 2^32 → newOpReturn data = Script.newOpReturn data)
    (op : OpDrivechain) (s : SidechainNumber) (blinded : Transaction) (m : BlindedM6) (ctip : Ctip)
    (unconsolidated : List Ctip) (tx : Transaction) (hm : BlindedM6.tryFrom blinded = .ok m)
    (htx : m.intoM6 op s ctip unconsolidated = .ok tx)
    (htxid : m.reblinded.computeTxid = m.tx.computeTxid → m.reblinded = m.tx) :
    op.computeM6id tx (ctip.value+(unconsolidated.map Ctip.value).sum) = .ok (m.computeM6id,s) ↔
      ∀ feeOutput ∈ blinded.output.head?, Script.MinimalPush feeOutput.scriptPubkey := by
  rw [BlindedM6.computeM6id_intoM6 hm htx,← BlindedM6.reblinded_eq_iff hinstr hnew hm]
  constructor
  · intro he
    exact htxid (Prod.mk.inj (Except.ok.inj he)).1
  · intro he
    rw [BlindedM6.computeM6id,he]

end Agreement

section Sample

open Sample

namespace M6idSample

def blinded (spk : Script) : Transaction := ⟨2,0,[],[⟨0,spk⟩,⟨1000,[0x51]⟩]⟩

def shortFee : Script := 0x6a::8::toBeBytes 5

def longFee : Script := 0x6a::0x4c::8::toBeBytes 5

def treasury : Ctip := ⟨⟨1,0⟩,5000⟩

def deposit : Ctip := ⟨⟨2,0⟩,30⟩

def withdrawal : Transaction :=
  ⟨2,0,[.spending ⟨1,0⟩,.spending ⟨2,0⟩],[⟨4025,OpDrivechain.nop5.script 3⟩,⟨1000,[0x51]⟩]⟩

end M6idSample

open M6idSample

theorem computeM6id_agrees_iff_sample :
    OpDrivechain.nop5.computeM6id withdrawal 5030 =
      .ok ((⟨5,1000,blinded shortFee⟩ : BlindedM6).computeM6id,3) :=
  (computeM6id_agrees_iff (fun _ => rfl) (fun _ _ => rfl) _ 3 (blinded shortFee) ⟨5,1000,blinded shortFee⟩
    treasury [deposit] withdrawal (by decide +kernel) (by decide +kernel) (fun _ => by decide +kernel)).mpr
    (by decide +kernel)

/-- A bundle with the longer push is accepted, and no withdrawal of it has its id. -/
theorem computeM6id_longFee :
    BlindedM6.tryFrom (blinded longFee) = .ok ⟨5,1000,blinded longFee⟩ ∧
      (⟨5,1000,blinded longFee⟩ : BlindedM6).intoM6 .nop5 3 treasury [deposit] = .ok withdrawal ∧
      OpDrivechain.nop5.computeM6id withdrawal 5030 ≠
        .ok ((⟨5,1000,blinded longFee⟩ : BlindedM6).computeM6id,3) :=
  ⟨by decide +kernel,by decide +kernel,by decide +kernel⟩

end Sample

end Bip300301Enforcer
