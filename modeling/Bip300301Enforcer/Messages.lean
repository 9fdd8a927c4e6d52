import Bip300301Enforcer.Types

/-! The coinbase messages `M1` to `M4` and `M7`, the BMM request `M8`, deposit
addresses, treasury scripts and blinded withdrawal ids. A byte parser returns
what it read together with the rest of its input. -/
namespace Bip300301Enforcer
open Std Lib

def opReturn : UInt8 := 0x6a

namespace Parse

def tag (t input : List UInt8) : Option (List UInt8) :=
  if t.isPrefixOf input then some (input.drop t.length) else none

def take (n : ℕ) (input : List UInt8) : Option (List UInt8 × List UInt8) :=
  if n ≤ input.length then some (input.take n,input.drop n) else none

def takeByte : List UInt8 → Option (UInt8 × List UInt8)
  | [] => none
  | b::rest => some (b,rest)

def eof (input : List UInt8) : Option Unit := if input.isEmpty then some () else none

/-- `many0(take(2))`: the pairs of bytes and what is left of them. -/
def pairs : List UInt8 → List (UInt8 × UInt8) × List UInt8
  | a::b::rest => ((a,b)::(pairs rest).1,(pairs rest).2)
  | rest => ([],rest)

/-- A hash is stored as its bytes, least significant first. -/
def hash (bytes : List UInt8) : BitVec 256 :=
  BitVec.ofNat 256 (bytes.foldr (fun b n => b.toNat+256*n) 0)

end Parse
open Parse

inductive M4AckBundles
  | repeatPrevious
  | oneByte (upvotes : List UInt8)
  | twoBytes (upvotes : List UInt16)
  | leadingBy50
deriving DecidableEq

namespace M4AckBundles

def abstainOneByte : UInt8 := 0xFF

def abstainTwoBytes : UInt16 := 0xFFFF

def alarmOneByte : UInt8 := 0xFE

def alarmTwoBytes : UInt16 := 0xFFFE

/-- `LittleEndian::read_u16`. -/
def readU16 (p : UInt8 × UInt8) : UInt16 := p.1.toUInt16+256*p.2.toUInt16

def parse : List UInt8 → Option M4AckBundles
  | 0x00::rest => (eof rest).map (fun _ => .repeatPrevious)
  | 0x01::rest => some (.oneByte rest)
  | 0x02::rest => (eof (pairs rest).2).map (fun _ => .twoBytes ((pairs rest).1.map readU16))
  | 0x03::rest => (eof rest).map (fun _ => .leadingBy50)
  | _ => none

end M4AckBundles

inductive CoinbaseMessage
  | m1ProposeSidechain (sidechainNumber : SidechainNumber) (description : List UInt8)
  | m2AckSidechain (sidechainNumber : SidechainNumber) (descriptionHash : DescriptionHash)
  | m3ProposeBundle (sidechainNumber : SidechainNumber) (bundleTxid : M6id)
  | m4AckBundles (m4 : M4AckBundles)
  | m7BmmAccept (sidechainNumber : SidechainNumber) (sidechainBlockHash : BmmCommitment)
deriving DecidableEq

namespace CoinbaseMessage

def m1Tag : List UInt8 := [0xD5,0xE0,0xC4,0xAF]

def m2Tag : List UInt8 := [0xD6,0xE1,0xC5,0xDF]

def m3Tag : List UInt8 := [0xD4,0x5A,0xA9,0x43]

def m4Tag : List UInt8 := [0xD7,0x7D,0x17,0x76]

def m7Tag : List UInt8 := [0xD1,0x61,0x73,0x68]

def parseM1 (input : List UInt8) : Option CoinbaseMessage := do
  let (s,description) ← takeByte input
  return .m1ProposeSidechain s description

/-- The body that `M2`, `M3` and `M7` share: a slot and a hash, and no more. -/
def parseSlotHash (input : List UInt8) : Option (SidechainNumber × BitVec 256) := do
  let (s,input) ← takeByte input
  let (bytes,input) ← take 32 input
  eof input
  return (s,hash bytes)

def parseM2 (input : List UInt8) : Option CoinbaseMessage :=
  (parseSlotHash input).map (fun p => .m2AckSidechain p.1 p.2)

def parseM3 (input : List UInt8) : Option CoinbaseMessage :=
  (parseSlotHash input).map (fun p => .m3ProposeBundle p.1 p.2)

def parseM7 (input : List UInt8) : Option CoinbaseMessage :=
  (parseSlotHash input).map (fun p => .m7BmmAccept p.1 p.2)

/-- The message in the push of `OP_RETURN <push>`. -/
def parseData (data : List UInt8) : Option CoinbaseMessage :=
  match tag m1Tag data, tag m2Tag data, tag m3Tag data, tag m4Tag data, tag m7Tag data with
  | some rest, _, _, _, _ => parseM1 rest
  | none, some rest, _, _, _ => parseM2 rest
  | none, none, some rest, _, _ => parseM3 rest
  | none, none, none, some rest, _ => (M4AckBundles.parse rest).map .m4AckBundles
  | none, none, none, none, some rest => parseM7 rest
  | none, none, none, none, none => none

/-- A message is exactly `OP_RETURN <push>`. -/
def parse [Bitcoin] (script : Script) : Option CoinbaseMessage :=
  match instructions script with
  | [some (.op code),some (.pushBytes data)] => if code = opReturn then parseData data else none
  | _ => none

end CoinbaseMessage

inductive CoinbaseMessagesError
  | multipleM1 (firstIndex : ℕ)
  | duplicateM2 (index : ℕ) (slot : SidechainNumber)
  | multipleM3 (index : ℕ)
  | duplicateM4 (index : ℕ)
  | duplicateM7 (index : ℕ) (slot : SidechainNumber)
deriving DecidableEq

/-- A valid, ordered list of coinbase messages with their output indexes. -/
structure CoinbaseMessages where
  messages : List (CoinbaseMessage × ℕ)
  m1Index : Option ℕ
  m2AckSlotToIndex : FinMap SidechainNumber ℕ
  m3Index : Option ℕ
  m4Index : Option ℕ
  m7SlotToCommitmentIndex : FinMap SidechainNumber (BmmCommitment × ℕ)

namespace CoinbaseMessages

def default : CoinbaseMessages := ⟨[],none,.empty,none,none,.empty⟩

def m4Exists (c : CoinbaseMessages) : Bool := c.m4Index.isSome

def push (c : CoinbaseMessages) (msg : CoinbaseMessage) (vout : ℕ) :
    Except CoinbaseMessagesError CoinbaseMessages :=
  let messages := c.messages++[(msg,vout)]
  match msg with
  | .m1ProposeSidechain _ _ =>
    match c.m1Index with
    | some firstIndex => .error (.multipleM1 firstIndex)
    | none => .ok { c with m1Index := some vout, messages }
  | .m2AckSidechain s _ =>
    match c.m2AckSlotToIndex.get? s with
    | some index => .error (.duplicateM2 index s)
    | none => .ok { c with m2AckSlotToIndex := c.m2AckSlotToIndex.insert s vout, messages }
  | .m4AckBundles _ =>
    match c.m4Index with
    | some index => .error (.duplicateM4 index)
    | none => .ok { c with m4Index := some vout, messages }
  | .m7BmmAccept s commitment =>
    match c.m7SlotToCommitmentIndex.get? s with
    | some (_,index) => .error (.duplicateM7 index s)
    | none =>
      .ok { c with
        m7SlotToCommitmentIndex := c.m7SlotToCommitmentIndex.insert s (commitment,vout), messages }
  | .m3ProposeBundle _ _ =>
    match c.m3Index with
    | some index => .error (.multipleM3 index)
    | none => .ok { c with m3Index := some vout, messages }

end CoinbaseMessages

structure M8BmmRequest where
  sidechainNumber : SidechainNumber
  sidechainBlockHash : BmmCommitment
  prevMainchainBlockHash : BlockHash
deriving DecidableEq

namespace M8BmmRequest

/-- `OP_RETURN`, the length of the push, and the tag. -/
def head : List UInt8 := [opReturn,68]

def m8Tag : List UInt8 := [0x00,0xBF,0x00]

def parse (input : List UInt8) : Option M8BmmRequest := do
  let input ← tag head input
  let input ← tag m8Tag input
  let (s,input) ← takeByte input
  let (commitment,input) ← take 32 input
  let (prev,input) ← take 32 input
  eof input
  return ⟨s,hash commitment,hash prev⟩

end M8BmmRequest

def parseM8Tx (tx : Transaction) : Option M8BmmRequest := do
  let output ← tx.output.head?
  M8BmmRequest.parse output.scriptPubkey

/-- The address of a deposit is the push of `OP_RETURN <push>`. -/
def tryParseOpReturnAddress [Bitcoin] (script : Script) : Option (List UInt8) :=
  match instructions script with
  | [some (.op code),some (.pushBytes address)] => if code = opReturn then some address else none
  | _ => none

/-- The eight bytes of a 64-bit number, most significant first. -/
def toBeBytes (n : ℕ) : List UInt8 := (List.range 8).map (fun i => UInt8.ofNat (n/256^(7-i)))

def fromBeBytes (bytes : List UInt8) : ℕ := bytes.foldl (fun n b => 256*n+b.toNat) 0

inductive M6idError
  | insufficientTreasury (spendSats treasurySats : ℕ)
  | invalidSpk (scriptPubkey : Script)
  | missingTreasuryInputs
  | missingTreasuryOutput
  | totalOutputAmountOverflow
  | withdrawalAmountOverflow
deriving DecidableEq

namespace OpDrivechain

/-- Reads back exactly what `script` writes. -/
def parse (op : OpDrivechain) (input : Script) : Option SidechainNumber := do
  let input ← tag [op.opcode,0x01] input
  let (s,input) ← takeByte input
  let input ← tag [0x51] input
  eof input
  return s

/-- The output that takes the treasury's place in a blinded withdrawal. -/
def feeOutput [Bitcoin] (fee : ℕ) : TxOut := ⟨0,newOpReturn (toBeBytes fee)⟩

/-- The blinded id of a withdrawal, given the treasury value that it spends. -/
def computeM6id [Bitcoin] (op : OpDrivechain) (tx : Transaction) (treasuryValueIn : ℕ) :
    Except M6idError (M6id × SidechainNumber) :=
  match tx.output with
  | [] => .error .missingTreasuryOutput
  | first::payouts => do
    let s ← Fallible.require (op.parse first.scriptPubkey) (.invalidSpk first.scriptPubkey)
    Fallible.ensure (!tx.input.isEmpty) .missingTreasuryInputs
    let pTotal ← Fallible.require (checkedSum (payouts.map TxOut.value)) .withdrawalAmountOverflow
    let total ← Fallible.require (checkedAdd first.value pTotal) .totalOutputAmountOverflow
    let fTotal ← Fallible.require (checkedSub treasuryValueIn total)
      (.insufficientTreasury total treasuryValueIn)
    let blinded : Transaction := { tx with input := [], output := feeOutput fTotal::payouts }
    return (blinded.computeTxid,s)

end OpDrivechain

end Bip300301Enforcer
