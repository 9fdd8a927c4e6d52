import Bip300301Enforcer.Bitcoin

/-! Decoding scripts into instructions and writing `OP_RETURN` scripts, as the
`bitcoin` crate does, and a Bitcoin whose digests can be computed by hand. -/
namespace Bip300301Enforcer

namespace Script

/-- Read a push whose length takes `width` bytes, least significant first. -/
def readPush (width : ℕ) (input : Script) : Option (List UInt8 × Script) :=
  let n := (input.take width).foldr (fun b n => b.toNat+256*n) 0
  let rest := input.drop width
  if width ≤ input.length && n ≤ rest.length then some (rest.take n,rest.drop n) else none

/-- The instructions of a script, with at most `fuel` of them. A decoding error
ends the script. -/
def decode : ℕ → Script → List (Option Instruction)
  | 0, _ => []
  | _+1, [] => []
  | fuel+1, op::rest =>
    let push := fun
      | none => [none]
      | some (data,rest) => some (.pushBytes data)::decode fuel rest
    if op ≤ 0x4b then
      push (if op.toNat ≤ rest.length then some (rest.take op.toNat,rest.drop op.toNat) else none)
    else if op = 0x4c then push (readPush 1 rest)
    else if op = 0x4d then push (readPush 2 rest)
    else if op = 0x4e then push (readPush 4 rest)
    else some (.op op)::decode fuel rest

def instructions (script : Script) : List (Option Instruction) := decode script.length script

/-- `push_slice`. -/
def pushSlice (data : List UInt8) : Script :=
  let n := data.length
  if n < 0x4c then UInt8.ofNat n::data
  else if n < 0x100 then 0x4c::UInt8.ofNat n::data
  else if n < 0x10000 then 0x4d::UInt8.ofNat n::UInt8.ofNat (n/0x100)::data
  else 0x4e::UInt8.ofNat n::UInt8.ofNat (n/0x100)::UInt8.ofNat (n/0x10000)::UInt8.ofNat (n/0x1000000)::data

/-- `new_op_return`. -/
def newOpReturn (data : List UInt8) : Script := 0x6a::pushSlice data

theorem instructions_newOpReturn {data : List UInt8} (h : data.length < 0x4c) :
    instructions (newOpReturn data) = [some (.op 0x6a),some (.pushBytes data)] := by
  have hn : (UInt8.ofNat data.length).toNat = data.length := by
    rw [UInt8.toNat_ofNat']
    omega
  have hle : UInt8.ofNat data.length ≤ 0x4b := by
    rw [UInt8.le_iff_toNat_le,hn]
    have : (0x4b : UInt8).toNat = 75 := rfl
    omega
  have hret : ¬ (0x6a : UInt8) ≤ 0x4b ∧ (0x6a : UInt8) ≠ 0x4c ∧ (0x6a : UInt8) ≠ 0x4d ∧
      (0x6a : UInt8) ≠ 0x4e := by decide
  have hend : ∀ fuel, decode fuel [] = [] := by
    intro fuel
    cases fuel <;> rfl
  simp only [instructions,newOpReturn,pushSlice,h,if_true,List.length_cons,decode,hret,if_false,
    hle,hn,Nat.le_refl,List.take_length,List.drop_length,hend]

end Script

def digest (l : List ℕ) : ℕ := l.foldl (fun acc n => (acc*(2^61-1)+n+7)%(2^256-189)) 17

def bytesDigest (l : List UInt8) : ℕ := digest (l.map UInt8.toNat)

def Header.digest (h : Header) : ℕ :=
  Bip300301Enforcer.digest [h.version.toNat,h.prevBlockhash.toNat,h.merkleRoot.toNat,h.time.toNat,
    h.bits.toNat,h.nonce.toNat]

def TxIn.digest (i : TxIn) : ℕ :=
  Bip300301Enforcer.digest [i.previousOutput.txid.toNat,i.previousOutput.vout,
    bytesDigest i.scriptSig,i.sequence.toNat]

def TxOut.digest (o : TxOut) : ℕ := Bip300301Enforcer.digest [o.value,bytesDigest o.scriptPubkey]

def Transaction.digest (tx : Transaction) : ℕ :=
  Bip300301Enforcer.digest [tx.version.toNat,tx.lockTime.toNat,
    Bip300301Enforcer.digest (tx.input.map TxIn.digest),
    Bip300301Enforcer.digest (tx.output.map TxOut.digest)]

namespace Sample

scoped instance sampleBitcoin : Bitcoin where
  blockHash h := BitVec.ofNat 256 (h.digest%(2^256-1)+1)
  work _ := 1
  computeTxid tx := BitVec.ofNat 256 tx.digest
  sha256d l := BitVec.ofNat 256 (bytesDigest l)
  instructions := Script.instructions
  newOpReturn := Script.newOpReturn
  blockHash_ne h := by
    intro he
    have hn := congrArg BitVec.toNat he
    rw [BitVec.toNat_ofNat,allZeros] at hn
    have hlt : h.digest%(2^256-1) < 2^256-1 := Nat.mod_lt _ (by decide)
    have hz : (0 : BitVec 256).toNat = 0 := rfl
    rw [hz] at hn
    omega
  work_pos _ := Nat.one_pos

end Sample

end Bip300301Enforcer
