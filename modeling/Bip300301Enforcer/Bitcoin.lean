import Bip300301Enforcer.Lib.FinMap
import Bip300301Enforcer.Lib.Fallible

/-! The Bitcoin data that the enforcer reads. Hashing, block work and script
decoding belong to the `bitcoin` crate and are parameters of the model. Amounts
are satoshis; all amounts of a chain are bounded by the money supply, so that
plain sums cannot overflow. -/
namespace Bip300301Enforcer
open Std Lib

abbrev BlockHash := BitVec 256

abbrev Txid := BitVec 256

instance : TransOrd BlockHash := inferInstance

instance : LawfulBEq BlockHash := inferInstance

abbrev Script := List UInt8

def allZeros : BlockHash := 0

structure OutPoint where
  txid : Txid
  vout : ℕ
deriving DecidableEq

namespace OutPoint

instance : Ord OutPoint := ⟨compareLex (compareOn txid) (compareOn vout)⟩

instance : TransOrd OutPoint :=
  inferInstanceAs (TransCmp (compareLex (compareOn txid) (compareOn vout)))

instance : LawfulEqOrd OutPoint where
  compare_self := ReflCmp.compare_self
  eq_of_compare {a b} h := by
    obtain ⟨t,v⟩ := a
    obtain ⟨t',v'⟩ := b
    change compareLex (compareOn txid) (compareOn vout) _ _ = _ at h
    simp only [compareLex_eq_eq,compareOn] at h
    rw [LawfulEqOrd.eq_of_compare h.1,LawfulEqOrd.eq_of_compare h.2]

end OutPoint

structure TxIn where
  previousOutput : OutPoint
  scriptSig : Script
  sequence : UInt32
deriving DecidableEq

namespace TxIn

/-- The input that `..Default::default()` gives. -/
def spending (o : OutPoint) : TxIn := ⟨o,[],0xFFFFFFFF⟩

end TxIn

structure TxOut where
  value : ℕ
  scriptPubkey : Script
deriving DecidableEq

/-- A transaction without its witness data, which no txid depends on. -/
structure Transaction where
  version : UInt32
  lockTime : UInt32
  input : List TxIn
  output : List TxOut
deriving DecidableEq

structure Header where
  version : UInt32
  prevBlockhash : BlockHash
  merkleRoot : BitVec 256
  time : UInt32
  bits : UInt32
  nonce : UInt32
deriving DecidableEq

structure Block where
  header : Header
  txdata : List Transaction
deriving DecidableEq

/-- A decoded script instruction. -/
inductive Instruction
  | op (code : UInt8)
  | pushBytes (data : List UInt8)
deriving DecidableEq

/-- What the enforcer takes from the `bitcoin` crate. A script decodes into
instructions one by one, and `none` stands for a decoding error. No header
hashes to all zeros, and every header has some work. -/
class Bitcoin where
  blockHash : Header → BlockHash
  work : Header → ℕ
  computeTxid : Transaction → Txid
  sha256d : List UInt8 → BitVec 256
  instructions : Script → List (Option Instruction)
  newOpReturn : List UInt8 → Script
  blockHash_ne (h : Header) : blockHash h ≠ allZeros
  work_pos (h : Header) : 0 < work h

export Bitcoin (sha256d instructions newOpReturn)

namespace Transaction

def computeTxid [Bitcoin] (tx : Transaction) : Txid := Bitcoin.computeTxid tx

end Transaction

namespace Header

def blockHash [Bitcoin] (h : Header) : BlockHash := Bitcoin.blockHash h

def work [Bitcoin] (h : Header) : ℕ := Bitcoin.work h

theorem blockHash_ne [Bitcoin] (h : Header) : h.blockHash ≠ allZeros := Bitcoin.blockHash_ne h

theorem work_pos [Bitcoin] (h : Header) : 0 < h.work := Bitcoin.work_pos h

end Header

namespace Block

def blockHash [Bitcoin] (b : Block) : BlockHash := b.header.blockHash

end Block

/-- `Amount::checked_add`. -/
def checkedAdd (a b : ℕ) : Option ℕ := if a+b < 2^64 then some (a+b) else none

/-- `checked_sum` over an iterator of amounts. -/
def checkedSum (l : List ℕ) : Option ℕ := l.foldlM checkedAdd 0

/-- `Amount::checked_sub`. -/
def checkedSub (a b : ℕ) : Option ℕ := if b ≤ a then some (a-b) else none

theorem checkedAdd_some {a b c : ℕ} : checkedAdd a b = some c ↔ a+b = c ∧ c < 2^64 := by
  unfold checkedAdd
  grind

theorem checkedSub_some {a b c : ℕ} : checkedSub a b = some c ↔ b ≤ a ∧ c = a-b := by
  unfold checkedSub
  grind

end Bip300301Enforcer
