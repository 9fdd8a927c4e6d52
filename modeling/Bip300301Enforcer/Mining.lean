import Bip300301Enforcer.SameMessages
import Bip300301Enforcer.BlindedM6Storage
import Bip300301Enforcer.Grind

/-! Blocks that the enforcer mines itself, from the template that it serves. The coinbase is
rebuilt with the messages of the template, then it gets the witness commitment and, on a
signet, the solution of the challenge. -/
namespace Bip300301Enforcer
open Lib Bytes Fallible

/-- A transaction with the witness of each of its inputs. -/
structure SegwitTx where
  tx : Transaction
  witness : List (List (List UInt8))

structure SegwitBlock where
  header : Header
  coinbase : SegwitTx
  txs : List SegwitTx

/-- Merkle trees and witness ids, from the `bitcoin` crate. -/
class MerkleTree where
  calculateRoot : List (BitVec 256) → BitVec 256
  computeWtxid : SegwitTx → BitVec 256

namespace Mining

def witnessCommitmentHeader : List UInt8 := [0xaa,0x21,0xa9,0xed]

def witnessReservedValue : List UInt8 := List.replicate 32 0

def signetHeader : List UInt8 := [0xec,0xc7,0xda,0xa2]

def looksLikeCommitment (script : Script) : Bool :=
  38 ≤ script.length && [0x6a,0x24]++witnessCommitmentHeader <+: script

def witnessCommitmentIndex (outputs : List TxOut) : Option ℕ :=
  ((outputs.zipIdx.filter (fun e => looksLikeCommitment e.1.scriptPubkey)).getLast?).map Prod.snd

def pushTo (outputs : List TxOut) (index : ℕ) (data : List UInt8) : List TxOut :=
  outputs.modify index (fun out => { out with scriptPubkey := out.scriptPubkey++Script.pushSlice data })

/-- The transactions whose signature solves a signet block. -/
structure SignetTxs where
  toSpend : Transaction
  toSign : Transaction
deriving DecidableEq

/-- `consensus::serialize` of a script and of a witness. -/
def serializeBytes (bytes : List UInt8) : List UInt8 := compactSize bytes.length++bytes

def serializeWitness (witness : List (List UInt8)) : List UInt8 :=
  compactSize witness.length++witness.flatMap serializeBytes

def solutionData (scriptSig : Script) (witness : List (List UInt8)) : List UInt8 :=
  signetHeader++serializeBytes scriptSig++serializeWitness witness

end Mining
open Mining

namespace SegwitBlock

def block (b : SegwitBlock) : Block := ⟨b.header,b.coinbase.tx::b.txs.map SegwitTx.tx⟩

def withOutputs (b : SegwitBlock) (output : List TxOut) : SegwitBlock :=
  { b with coinbase := { b.coinbase with tx := { b.coinbase.tx with output } } }

section Commitments

variable [Bitcoin] [MerkleTree]

def computeMerkleRoot (b : SegwitBlock) : BitVec 256 :=
  MerkleTree.calculateRoot (b.block.txdata.map Transaction.computeTxid)

/-- The coinbase stands for zeros in the tree of the witness ids. -/
def witnessRoot (b : SegwitBlock) : BitVec 256 :=
  MerkleTree.calculateRoot (0::b.txs.map MerkleTree.computeWtxid)

def computeWitnessCommitment (root : BitVec 256) (reserved : List UInt8) : BitVec 256 :=
  sha256d (hashBytes root++reserved)

def updateMerkleRoot (b : SegwitBlock) : SegwitBlock :=
  { b with header := { b.header with merkleRoot := b.computeMerkleRoot } }

def commitmentOutput (b : SegwitBlock) : TxOut :=
  ⟨0,Script.newOpReturn (witnessCommitmentHeader++
    hashBytes (computeWitnessCommitment b.witnessRoot witnessReservedValue))⟩

def addWitnessCommitment (b : SegwitBlock) : SegwitBlock :=
  let witness := b.coinbase.witness.set 0 [witnessReservedValue]
  let b := { b with coinbase := { b.coinbase with witness } }
  (b.withOutputs (b.coinbase.tx.output++[b.commitmentOutput])).updateMerkleRoot

/-- The transactions to sign for a block whose coinbase is the one that the solution commits
to. The header counts with its version, parent and time, and with the root of that coinbase. -/
def signetTxsOf (b : SegwitBlock) (challenge : Script) : SignetTxs :=
  let blockData := leBytes 4 b.header.version.toNat++hashBytes b.header.prevBlockhash++
    hashBytes b.computeMerkleRoot++leBytes 4 b.header.time.toNat
  let toSpend : Transaction :=
    ⟨0,0,[⟨⟨0,0xFFFFFFFF⟩,[0x00]++Script.pushSlice blockData,0⟩],[⟨0,challenge⟩]⟩
  ⟨toSpend,⟨0,0,[⟨⟨toSpend.computeTxid,0⟩,[],0⟩],[⟨0,[opReturn]⟩]⟩⟩

/-- `SignetTxs::new`. The solution commits to the block with only the mark of the solution
pushed. There is none for a block without a witness commitment. -/
def signetTxs (b : SegwitBlock) (challenge : Script) : Option SignetTxs := do
  let index ← witnessCommitmentIndex b.coinbase.tx.output
  return (b.withOutputs (pushTo b.coinbase.tx.output index signetHeader)).signetTxsOf challenge

end Commitments

end SegwitBlock

/-- The reasons why mining a block fails. -/
inductive MineError
  | templateTipMismatch (templateTip validatorTip : BlockHash)
  | noCoinbaseTxn
  | negativeTemplateTransactionFee (txid : Txid) (fee : ℤ)
  | noWitnessCommitment
  | unsolved
  | nonceSpaceExhausted
  | panicPushSize
deriving DecidableEq

/-- Push the solution of the challenge and update the merkle root. -/
def SegwitBlock.addSignetSolution [Bitcoin] [MerkleTree] (b : SegwitBlock) (scriptSig : Script)
    (witness : List (List UInt8)) : Except MineError SegwitBlock := do
  let index ← require (witnessCommitmentIndex b.coinbase.tx.output) .noWitnessCommitment
  let push ← (pushBytes (solutionData scriptSig witness)).mapError (fun _ => .panicPushSize)
  return (b.withOutputs (pushTo b.coinbase.tx.output index push)).updateMerkleRoot

/-- What a served template says. Its coinbase is missing when the server did not build it. -/
structure BlockTemplate where
  prevBlockhash : BlockHash
  bits : UInt32
  mintime : ℕ
  coinbaseTxn : Option Transaction
  transactions : List (SegwitTx × ℤ)

namespace Mining

/-- `push_int` for a number that is not negative. -/
def pushInt (n : ℕ) : Script :=
  if n = 0 then [0x00]
  else if n ≤ 16 then [UInt8.ofNat (0x50+n)]
  else Script.pushSlice (leBytes
    (if n < 0x80 then 1 else if n < 0x8000 then 2 else if n < 0x800000 then 3
      else if n < 0x80000000 then 4 else 5) n)

def subsidyHalvingInterval : Network → ℕ
  | .regtest => 150
  | _ => 210000

def getBlockValue (height fees : ℕ) (network : Network) : ℕ :=
  let subsidySats := 50*100000000
  let halvings := height/subsidyHalvingInterval network
  if halvings ≥ 64 then fees else fees+subsidySats>>>halvings

/-- As the source has it: the script of the challenge is compared with the letters of its
hexadecimal form. -/
def l2lSignetChallenge : List UInt8 :=
  "00141551188e5153533b4fdd555449e640d9cc129456".toList.map (fun c => UInt8.ofNat c.toNat)

def targetBlockInterval (challenge : Script) : ℕ :=
  if challenge = l2lSignetChallenge then 60 else 600

/-- The time of a signet block. Behind schedule, it catches up halfway to now. -/
def signetBlockTime (tipTime now interval : ℕ) : ℕ :=
  let tipAge := now-tipTime
  if tipAge > interval then tipTime+(tipAge+interval)/2 else max now (tipTime+1)

def blockTimeSecs (challenge : Option Script) (tipTime now mintime : ℕ) : ℕ :=
  max (match challenge with
    | some challenge => signetBlockTime tipTime now (targetBlockInterval challenge)
    | none => max now (tipTime+1)) mintime

def blockTime (challenge : Option Script) (tipTime : UInt32) (now mintime : ℕ) : UInt32 :=
  .ofNat (blockTimeSecs challenge tipTime.toNat now mintime)

/-- The coinbase that pays the reward and carries the messages. -/
def finalizeCoinbase (network : Network) (bestBlockHeight : ℕ) (coinbaseSpk : Script)
    (coinbaseOutputs : List TxOut) (fees : ℕ) : SegwitTx :=
  let scriptSig := pushInt (bestBlockHeight+1)++[0x00]
  let value := getBlockValue (bestBlockHeight+1) fees network
  let output : TxOut := if value > 0 then ⟨value,coinbaseSpk⟩ else ⟨0,[opReturn]⟩
  ⟨⟨2,0,[⟨⟨0,0xFFFFFFFF⟩,scriptSig,0xFFFFFFFF⟩],output::coinbaseOutputs⟩,[[]]⟩

section Mine

variable [Bitcoin] [MerkleTree]

def readTemplateTx (e : SegwitTx × ℤ) : Except MineError (SegwitTx × ℕ) :=
  if 0 ≤ e.2 then .ok (e.1,e.2.toNat)
  else .error (.negativeTemplateTransactionFee e.1.tx.computeTxid e.2)

/-- The messages and the transactions of a template, if it builds on the validator's tip. -/
def selectBlockTxs (template : BlockTemplate) (mainchainTip : BlockHash) :
    Except MineError (List TxOut × List (SegwitTx × ℕ)) := do
  let _ ← ensure (template.prevBlockhash = mainchainTip)
    (.templateTipMismatch template.prevBlockhash mainchainTip)
  let coinbase ← require template.coinbaseTxn .noCoinbaseTxn
  let messages := coinbase.output.filter
    (fun out => (CoinbaseMessage.parse out.scriptPubkey).isSome)
  let txs ← template.transactions.mapM readTemplateTx
  return (messages,txs)

/-- Where a block is mined: the network, the signet challenge, the validator's tip and the
clock. -/
structure Site where
  network : Network
  challenge : Option Script
  tip : HeaderInfo
  now : ℕ

def finalizeBlock (site : Site) (coinbaseSpk : Script) (coinbaseOutputs : List TxOut)
    (transactions : List SegwitTx) (fees : ℕ) (template : BlockTemplate) : SegwitBlock :=
  let coinbase := finalizeCoinbase site.network site.tip.height coinbaseSpk coinbaseOutputs fees
  let time := blockTime site.challenge site.tip.timestamp site.now template.mintime
  (SegwitBlock.mk ⟨0x20000000,site.tip.blockHash,0,time,template.bits,0⟩ coinbase
    transactions).addWitnessCommitment

/-- Solve the challenge. The node's wallet signs, or says that it cannot. -/
def signSignetBlock (sign : SignetTxs → Option (Script × List (List UInt8))) (b : SegwitBlock)
    (challenge : Script) : Except MineError SegwitBlock := do
  let txs ← require (b.signetTxs challenge) .noWitnessCommitment
  let (scriptSig,witness) ← require (sign txs) .unsolved
  b.addSignetSolution scriptSig witness

def solveChallenge (sign : SignetTxs → Option (Script × List (List UInt8)))
    (challenge : Option Script) (b : SegwitBlock) : Except MineError SegwitBlock :=
  match challenge with
  | some challenge => signSignetBlock sign b challenge
  | none => .ok b

/-- A block up to its submission. -/
def mine (site : Site) (sign : SignetTxs → Option (Script × List (List UInt8)))
    (grind : Header → Option Header) (coinbaseSpk : Script) (coinbaseOutputs : List TxOut)
    (transactions : List SegwitTx) (fees : ℕ) (template : BlockTemplate) :
    Except MineError SegwitBlock := do
  let b := finalizeBlock site coinbaseSpk coinbaseOutputs transactions fees template
  let b ← solveChallenge sign site.challenge b
  let header ← require (grind b.header) .nonceSpaceExhausted
  return { b with header }

/-- The validator's tip is read once for the template and once more when the block is built. -/
def generateBlock (mainchainTip : BlockHash) (site : Site)
    (sign : SignetTxs → Option (Script × List (List UInt8)))
    (grind : Header → Option Header) (coinbaseSpk : Script) (template : BlockTemplate) :
    Except MineError SegwitBlock := do
  let (coinbaseOutputs,selected) ← selectBlockTxs template mainchainTip
  let fees := (selected.map Prod.snd).sum
  mine site sign grind coinbaseSpk coinbaseOutputs (selected.map Prod.fst) fees template

end Mine

end Mining

namespace Script

theorem readPush_append {width : ℕ} {data rest : List UInt8} (h : data.length < 256^width) :
    readPush width (leBytes width data.length++(data++rest)) = some (data,rest) := by
  have hlen := length_leBytes width data.length
  have hn : (leBytes width data.length).foldr (fun b n => b.toNat+256*n) 0 = data.length :=
    leNat_leBytes_of_lt h
  simp [readPush,List.take_left' hlen,List.drop_left' hlen,hn,hlen]

/-- A push is decoded before whatever follows it. -/
theorem decode_pushSlice {data : List UInt8} (h : data.length < 2^32) (rest : Script) (fuel : ℕ) :
    decode (fuel+1) (pushSlice data++rest) = some (.pushBytes data)::decode fuel rest := by
  by_cases h₁ : data.length < 0x4c
  · have hn : (UInt8.ofNat data.length).toNat = data.length := by
      rw [UInt8.toNat_ofNat']
      omega
    have hle : UInt8.ofNat data.length ≤ 0x4b := by
      rw [UInt8.le_iff_toNat_le,hn]
      have hmax : (0x4b : UInt8).toNat = 75 := rfl
      omega
    simp [pushSlice,h₁,decode,hle,hn]
  by_cases h₂ : data.length < 0x100
  · have hpush : pushSlice data = 0x4c::(leBytes 1 data.length++data) := by
      simp [pushSlice,h₁,h₂,leBytes]
    have hop : ¬ (0x4c : UInt8) ≤ 0x4b := by decide
    have hread : readPush 1 (leBytes 1 data.length++(data++rest)) = some (data,rest) :=
      readPush_append (by omega)
    simp [hpush,decode,hop,hread]
  by_cases h₃ : data.length < 0x10000
  · have hpush : pushSlice data = 0x4d::(leBytes 2 data.length++data) := by
      simp [pushSlice,h₁,h₂,h₃,leBytes,List.range_succ]
    have hop : ¬ (0x4d : UInt8) ≤ 0x4b := by decide
    have hread : readPush 2 (leBytes 2 data.length++(data++rest)) = some (data,rest) :=
      readPush_append (by omega)
    simp [hpush,decode,hop,hread]
  · have hpush : pushSlice data = 0x4e::(leBytes 4 data.length++data) := by
      simp [pushSlice,h₁,h₂,h₃,leBytes,List.range_succ]
    have hop : ¬ (0x4e : UInt8) ≤ 0x4b := by decide
    have hread : readPush 4 (leBytes 4 data.length++(data++rest)) = some (data,rest) :=
      readPush_append (by omega)
    simp [hpush,decode,hop,hread]

theorem pushSlice_pos (data : List UInt8) : 0 < (pushSlice data).length := by
  unfold pushSlice
  dsimp only
  split_ifs <;> simp

theorem instructions_newOpReturn_push {data more : List UInt8} (h : data.length < 2^32)
    (hmore : more.length < 2^32) :
    instructions (newOpReturn data++pushSlice more) =
      [some (.op 0x6a),some (.pushBytes data),some (.pushBytes more)] := by
  have hret : ¬ (0x6a : UInt8) ≤ 0x4b ∧ (0x6a : UInt8) ≠ 0x4c ∧ (0x6a : UInt8) ≠ 0x4d ∧
      (0x6a : UInt8) ≠ 0x4e := by decide
  have hfirst := pushSlice_pos data
  have hsecond := pushSlice_pos more
  obtain ⟨fuel,hfuel⟩ : ∃ fuel, (pushSlice data).length+(pushSlice more).length = fuel+1+1 :=
    ⟨(pushSlice data).length+(pushSlice more).length-2,by omega⟩
  have hlast : decode (fuel+1) (pushSlice more) = [some (.pushBytes more)] := by
    have hdecode := decode_pushSlice hmore [] fuel
    rw [List.append_nil] at hdecode
    rw [hdecode]
    cases fuel <;> rfl
  simp only [instructions,newOpReturn,List.cons_append,List.length_cons,List.length_append,decode,
    hret,if_false,hfuel,decode_pushSlice h,hlast]

end Script

section Messages
open Mining

theorem filterMap_filter_isSome {α β : Type} (f : α → Option β) (l : List α) :
    (l.filter (fun a => (f a).isSome)).filterMap f = l.filterMap f := by
  induction l with
  | nil => rfl
  | cons a l ih =>
    cases hf : f a with
    | none => simp [hf,ih]
    | some b => simp [hf,ih]

theorem parseData_commitment (data : List UInt8) :
    CoinbaseMessage.parseData (witnessCommitmentHeader++data) = none := by
  simp [CoinbaseMessage.parseData,Parse.tag,witnessCommitmentHeader,CoinbaseMessage.m1Tag,
    CoinbaseMessage.m2Tag,CoinbaseMessage.m3Tag,CoinbaseMessage.m4Tag,CoinbaseMessage.m7Tag]

variable [Bitcoin]

theorem messages_append (tx : Transaction) (output : List TxOut) :
    { tx with output := tx.output++output }.messages =
      tx.messages++output.filterMap (fun out => CoinbaseMessage.parse out.scriptPubkey) := by
  simp [Transaction.messages]

theorem readTemplateTx_ok {e : SegwitTx × ℤ} {e' : SegwitTx × ℕ}
    (h : readTemplateTx e = .ok e') : e'.1 = e.1 := by
  unfold readTemplateTx at h
  split_ifs at h
  rw [← Except.ok.inj h]

theorem readTemplateTxs_ok {l : List (SegwitTx × ℤ)} {l' : List (SegwitTx × ℕ)}
    (h : l.mapM readTemplateTx = .ok l') : l'.map Prod.fst = l.map Prod.fst := by
  have hall := mapM_forall₂ h
  clear h
  induction hall with
  | nil => rfl
  | cons hhead _ ih => simp [readTemplateTx_ok hhead,ih]

variable (hinstr : ∀ script, instructions script = Script.instructions script)
include hinstr

theorem parse_commitment {data : List UInt8} (h : data.length < 2^31) :
    CoinbaseMessage.parse (Script.newOpReturn (witnessCommitmentHeader++data)) = none := by
  have hlen : (witnessCommitmentHeader++data).length < 2^32 := by
    simp [witnessCommitmentHeader]
    omega
  have hdecode := Script.instructions_newOpReturn_all hlen
  simp [CoinbaseMessage.parse,hinstr,hdecode,parseData_commitment]

theorem parse_solved {data more : List UInt8} (h : data.length < 2^31)
    (hmore : more.length < 2^32) :
    CoinbaseMessage.parse
      (Script.newOpReturn (witnessCommitmentHeader++data)++Script.pushSlice more) = none := by
  have hlen : (witnessCommitmentHeader++data).length < 2^32 := by
    simp [witnessCommitmentHeader]
    omega
  have hdecode := Script.instructions_newOpReturn_push hlen hmore
  simp [CoinbaseMessage.parse,hinstr,hdecode]

theorem finalizeCoinbase_messages (network : Network) (bestBlockHeight : ℕ) {coinbaseSpk : Script}
    (hspk : CoinbaseMessage.parse coinbaseSpk = none) (coinbaseOutputs : List TxOut) (fees : ℕ) :
    (finalizeCoinbase network bestBlockHeight coinbaseSpk coinbaseOutputs fees).tx.messages =
      coinbaseOutputs.filterMap (fun out => CoinbaseMessage.parse out.scriptPubkey) := by
  have hburn : CoinbaseMessage.parse [opReturn] = none := by
    have hdecode : Script.instructions [opReturn] = [some (.op opReturn)] := by decide
    simp [CoinbaseMessage.parse,hinstr,hdecode]
  unfold finalizeCoinbase Transaction.messages
  dsimp only
  split_ifs
  · simp [hspk]
  · simp [hburn]

end Messages

section Sealed
open Mining SegwitBlock

theorem witnessCommitmentIndex_snoc (l : List TxOut) {out : TxOut}
    (h : looksLikeCommitment out.scriptPubkey = true) :
    witnessCommitmentIndex (l++[out]) = some l.length := by
  simp [witnessCommitmentIndex,List.zipIdx_append,h]

theorem modify_snoc {α : Type} (f : α → α) (l : List α) (a : α) :
    (l++[a]).modify l.length f = l++[f a] := by
  induction l with
  | nil => rfl
  | cons b l ih => simpa using ih

theorem pushTo_snoc (l : List TxOut) (out : TxOut) (data : List UInt8) :
    pushTo (l++[out]) l.length data =
      l++[{ out with scriptPubkey := out.scriptPubkey++Script.pushSlice data }] :=
  modify_snoc _ l out

variable [Bitcoin] [MerkleTree]

theorem looksLike_commitment (b : SegwitBlock) (more : Script) :
    looksLikeCommitment (b.commitmentOutput.scriptPubkey++more) = true := by
  have hlen : (witnessCommitmentHeader++
      hashBytes (computeWitnessCommitment b.witnessRoot witnessReservedValue)).length = 36 := by
    simp [witnessCommitmentHeader,hashBytes]
  have hscript : b.commitmentOutput.scriptPubkey = [0x6a,0x24]++(witnessCommitmentHeader++
      hashBytes (computeWitnessCommitment b.witnessRoot witnessReservedValue)) := by
    simp only [commitmentOutput,Script.newOpReturn,Script.pushSlice,hlen]
    rfl
  rw [hscript]
  simp [looksLikeCommitment,hashBytes,witnessCommitmentHeader]

def SegwitBlock.commitmentData (b : SegwitBlock) : List UInt8 :=
  witnessCommitmentHeader++hashBytes (computeWitnessCommitment b.witnessRoot witnessReservedValue)

theorem length_commitmentData (b : SegwitBlock) : b.commitmentData.length = 36 := by
  simp [commitmentData,witnessCommitmentHeader,hashBytes]

/-- What validation takes a signet block back to before it checks the solution: the push of the
solution is cut down to its mark. -/
def stripSolution (script : Script) : Script :=
  (Script.instructions script).flatMap fun
    | some (.op code) => [code]
    | some (.pushBytes data) =>
      Script.pushSlice (if signetHeader <+: data then signetHeader else data)
    | none => []

def SegwitBlock.stripped (b : SegwitBlock) : SegwitBlock :=
  match witnessCommitmentIndex b.coinbase.tx.output with
  | none => b
  | some index => b.withOutputs (b.coinbase.tx.output.modify index
      (fun out => { out with scriptPubkey := stripSolution out.scriptPubkey }))

theorem stripSolution_solved (b : SegwitBlock) {data : List UInt8}
    (h : (signetHeader++data).length < 2^32) :
    stripSolution (b.commitmentOutput.scriptPubkey++Script.pushSlice (signetHeader++data)) =
      b.commitmentOutput.scriptPubkey++Script.pushSlice signetHeader := by
  have hlen : b.commitmentData.length < 2^32 := by
    rw [length_commitmentData]
    decide
  have hdecode := Script.instructions_newOpReturn_push hlen h
  have hne : ¬signetHeader <+: b.commitmentData := by
    simp [commitmentData,signetHeader,witnessCommitmentHeader]
  change stripSolution (Script.newOpReturn b.commitmentData++_) =
    Script.newOpReturn b.commitmentData++_
  rw [stripSolution,hdecode]
  simp [hne,Script.newOpReturn]

theorem signetTxsOf_congr {b b' : SegwitBlock} (challenge : Script)
    (hversion : b.header.version = b'.header.version)
    (hprev : b.header.prevBlockhash = b'.header.prevBlockhash)
    (htime : b.header.time = b'.header.time)
    (hroot : b.computeMerkleRoot = b'.computeMerkleRoot) :
    b.signetTxsOf challenge = b'.signetTxsOf challenge := by
  unfold signetTxsOf
  rw [hversion,hprev,htime,hroot]

/-- A block whose last coinbase output is its witness commitment, with `more` after it. -/
structure Committed (u b : SegwitBlock) (more : Script) : Prop where
  txs : b.txs = u.txs
  tx : b.coinbase.tx = { u.coinbase.tx with
    output := u.coinbase.tx.output++
      [⟨0,u.commitmentOutput.scriptPubkey++more⟩] }
  witness : b.coinbase.witness = u.coinbase.witness.set 0 [witnessReservedValue]
  version : b.header.version = u.header.version
  prev : b.header.prevBlockhash = u.header.prevBlockhash
  time : b.header.time = u.header.time
  bits : b.header.bits = u.header.bits
  root : b.header.merkleRoot = b.computeMerkleRoot

namespace Committed

variable {u b : SegwitBlock} {more : Script}

theorem addWitnessCommitment (u : SegwitBlock) : Committed u u.addWitnessCommitment [] := by
  refine ⟨rfl,?_,rfl,rfl,rfl,rfl,rfl,rfl⟩
  simp [SegwitBlock.addWitnessCommitment,updateMerkleRoot,withOutputs,commitmentOutput,witnessRoot]

theorem index (h : Committed u b more) :
    witnessCommitmentIndex b.coinbase.tx.output = some u.coinbase.tx.output.length := by
  rw [h.tx]
  exact witnessCommitmentIndex_snoc _ (looksLike_commitment u more)

theorem addSignetSolution (h : Committed u b []) {scriptSig : Script}
    {witness : List (List UInt8)} {b' : SegwitBlock}
    (hb : b.addSignetSolution scriptSig witness = .ok b') :
    Committed u b' (Script.pushSlice (solutionData scriptSig witness)) ∧
      (solutionData scriptSig witness).length < 2^32 := by
  obtain ⟨index,hindex,hb⟩ := bind_ok.mp hb
  obtain ⟨push,hpush,hb⟩ := bind_ok.mp hb
  rw [require_ok,h.index,Option.some_inj] at hindex
  rw [mapError_ok] at hpush
  have hsize : (solutionData scriptSig witness).length < 2^32 := by
    by_contra hlarge
    rw [pushBytes,if_neg hlarge] at hpush
    cases hpush
  rw [pushBytes,if_pos hsize] at hpush
  obtain rfl := Except.ok.inj hpush
  obtain rfl := (pure_ok _ _).mp hb
  subst hindex
  refine ⟨⟨h.txs,?_,h.witness,h.version,h.prev,h.time,h.bits,rfl⟩,hsize⟩
  simp [updateMerkleRoot,withOutputs,h.tx,pushTo_snoc]

theorem signetTxs_eq (h : Committed u b []) {b' : SegwitBlock} {data : List UInt8}
    (h' : Committed u b' (Script.pushSlice (signetHeader++data)))
    (hsize : (signetHeader++data).length < 2^32) (challenge : Script) :
    b.signetTxs challenge = some (b'.stripped.signetTxsOf challenge) := by
  have hstripped : b'.stripped = b'.withOutputs (u.coinbase.tx.output++
      [⟨0,u.commitmentOutput.scriptPubkey++Script.pushSlice signetHeader⟩]) := by
    rw [stripped,h'.index]
    simp only [h'.tx,modify_snoc,stripSolution_solved u hsize]
  have hpushed : pushTo b.coinbase.tx.output u.coinbase.tx.output.length signetHeader =
      u.coinbase.tx.output++
        [⟨0,u.commitmentOutput.scriptPubkey++Script.pushSlice signetHeader⟩] := by
    simp [h.tx,pushTo_snoc]
  rw [signetTxs,h.index,Option.bind_eq_bind,Option.bind_some,hpushed,hstripped]
  refine congrArg some (signetTxsOf_congr challenge ?_ ?_ ?_ ?_)
  · exact h.version.trans h'.version.symm
  · exact h.prev.trans h'.prev.symm
  · exact h.time.trans h'.time.symm
  · simp [computeMerkleRoot,SegwitBlock.block,withOutputs,h.tx,h'.tx,h.txs,h'.txs]

theorem grind (h : Committed u b more) {hd : Header} (hhd : hd = { b.header with nonce := hd.nonce }) :
    Committed u { b with header := hd } more := by
  rw [hhd]
  exact ⟨h.txs,h.tx,h.witness,h.version,h.prev,h.time,h.bits,h.root⟩

theorem last (h : Committed u b more) :
    b.coinbase.tx.output.getLast? = some ⟨0,Script.newOpReturn u.commitmentData++more⟩ := by
  rw [h.tx]
  exact List.getLast?_concat

theorem commitmentData_eq (h : Committed u b more) : b.commitmentData = u.commitmentData := by
  simp [commitmentData,witnessRoot,h.txs]

end Committed

/-- What the last coinbase output of a mined block says, beside `OP_RETURN` and the witness
commitment. Only a signet block has more: the signature of the wallet on the block itself. -/
def Solves (sign : SignetTxs → Option (Script × List (List UInt8))) (challenge : Option Script)
    (b : SegwitBlock) (pushes : List (Option Instruction)) : Prop :=
  match challenge with
  | none => pushes = []
  | some challenge => ∃ scriptSig witness,
      sign (b.stripped.signetTxsOf challenge) = some (scriptSig,witness) ∧
      pushes = [some (.pushBytes (solutionData scriptSig witness))]

variable {site : Site} {sign : SignetTxs → Option (Script × List (List UInt8))}
  {grind : Header → Option Header} {coinbaseSpk : Script} {coinbaseOutputs : List TxOut}
  {transactions : List SegwitTx} {fees : ℕ} {template : BlockTemplate} {b : SegwitBlock}

/-- The block that `finalize_block` adds the witness commitment to. -/
def Mining.unfinished (site : Site) (coinbaseSpk : Script) (coinbaseOutputs : List TxOut)
    (transactions : List SegwitTx) (fees : ℕ) (template : BlockTemplate) : SegwitBlock :=
  ⟨⟨0x20000000,site.tip.blockHash,0,
    blockTime site.challenge site.tip.timestamp site.now template.mintime,template.bits,0⟩,
    finalizeCoinbase site.network site.tip.height coinbaseSpk coinbaseOutputs fees,transactions⟩

theorem mine_committed
    (hgrind : ∀ hd hd', grind hd = some hd' → hd' = { hd with nonce := hd'.nonce })
    (hb : mine site sign grind coinbaseSpk coinbaseOutputs transactions fees template = .ok b) :
    ∃ more pushes,
      Committed (unfinished site coinbaseSpk coinbaseOutputs transactions fees template) b more ∧
      Script.instructions (Script.newOpReturn
        (unfinished site coinbaseSpk coinbaseOutputs transactions fees template).commitmentData++
          more) = [some (.op opReturn),some (.pushBytes (unfinished site coinbaseSpk
            coinbaseOutputs transactions fees template).commitmentData)]++pushes ∧
      Solves sign site.challenge b pushes ∧
      (more = [] ∨ ∃ data, data.length < 2^32 ∧ more = Script.pushSlice data) := by
  let u := unfinished site coinbaseSpk coinbaseOutputs transactions fees template
  have hlen : u.commitmentData.length < 2^32 := by
    rw [length_commitmentData]
    decide
  have hu : Committed u u.addWitnessCommitment [] := .addWitnessCommitment u
  unfold mine at hb
  obtain ⟨b₁,hb₁,hb⟩ := bind_ok.mp hb
  obtain ⟨hd,hhd,hb⟩ := bind_ok.mp hb
  rw [require_ok] at hhd
  obtain rfl := (pure_ok _ _).mp hb
  have hnonce := hgrind _ _ hhd
  cases hc : site.challenge with
  | none =>
    rw [hc] at hb₁
    obtain rfl := Except.ok.inj hb₁
    refine ⟨[],[],hu.grind hnonce,?_,rfl,.inl rfl⟩
    rw [List.append_nil]
    exact Script.instructions_newOpReturn_all hlen
  | some challenge =>
    rw [hc] at hb₁
    obtain ⟨txs,htxs,hb₁⟩ := bind_ok.mp hb₁
    obtain ⟨⟨scriptSig,witness⟩,hsign,hb₁⟩ := bind_ok.mp hb₁
    rw [require_ok] at htxs hsign
    obtain ⟨hb₁,hsize⟩ := hu.addSignetSolution hb₁
    have hfinal := hb₁.grind hnonce
    have hdata : solutionData scriptSig witness =
        signetHeader++(serializeBytes scriptSig++serializeWitness witness) := by
      simp [solutionData]
    refine ⟨_,_,hfinal,Script.instructions_newOpReturn_push hlen hsize,
      ⟨scriptSig,witness,?_,rfl⟩,.inr ⟨_,hsize,rfl⟩⟩
    rw [hdata] at hfinal hsize
    have heq := hu.signetTxs_eq hfinal hsize challenge
    rw [← hsign]
    exact congrArg sign (Option.some.inj (heq.symm.trans htxs))

theorem generateBlock_ok {mainchainTip : BlockHash}
    (hb : generateBlock mainchainTip site sign grind coinbaseSpk template = .ok b) :
    ∃ coinbase fees, template.prevBlockhash = mainchainTip ∧ template.coinbaseTxn = some coinbase ∧
      mine site sign grind coinbaseSpk
        (coinbase.output.filter (fun out => (CoinbaseMessage.parse out.scriptPubkey).isSome))
        (template.transactions.map Prod.fst) fees template = .ok b := by
  obtain ⟨⟨outputs,selected⟩,hselect,hb⟩ := bind_ok.mp hb
  obtain ⟨_,htip,hselect⟩ := bind_ok.mp hselect
  obtain ⟨coinbase,hcoinbase,hselect⟩ := bind_ok.mp hselect
  obtain ⟨txs,htxs,hselect⟩ := bind_ok.mp hselect
  obtain ⟨rfl,rfl⟩ := Prod.mk.inj ((pure_ok _ _).mp hselect)
  rw [ensure_ok,decide_eq_true_eq] at htip
  rw [require_ok] at hcoinbase
  refine ⟨coinbase,(txs.map Prod.snd).sum,htip,hcoinbase,?_⟩
  rw [← readTemplateTxs_ok htxs]
  exact hb

/-- A mined block is judged as its template is, on every state. -/
theorem mined_as_template (hinstr : ∀ script, instructions script = Script.instructions script)
    (cell : Header → UInt64) (hspk : CoinbaseMessage.parse coinbaseSpk = none)
    {mainchainTip : BlockHash} (hb : generateBlock mainchainTip site sign
      (fun hd => grindResult hd (cell hd)) coinbaseSpk template = .ok b) :
    ∃ coinbase, template.coinbaseTxn = some coinbase ∧
      ∀ (h : BlockHandler) (dbs : ConsensusDbs) (height : ℕ) (parent templateHash : BlockHash)
        (prevDiff : Option Diff.Block),
        Alongside ProcessedBlock.SameEffect
          (h.processBlock dbs height parent templateHash prevDiff coinbase
            (template.transactions.map (fun e => e.1.tx)))
          (h.processBlock dbs height parent b.block.blockHash prevDiff b.coinbase.tx
            (b.txs.map SegwitTx.tx)) := by
  obtain ⟨coinbase,fees,-,hcoinbase,hb⟩ := generateBlock_ok hb
  obtain ⟨more,pushes,hcommitted,-,-,hmore⟩ := mine_committed (fun _ _ => grindResult_nonce) hb
  have hcommit : CoinbaseMessage.parse (Script.newOpReturn (unfinished site coinbaseSpk
      (coinbase.output.filter (fun out => (CoinbaseMessage.parse out.scriptPubkey).isSome))
      (template.transactions.map Prod.fst) fees template).commitmentData++more) = none := by
    cases hmore with
    | inl hnil =>
      rw [hnil,List.append_nil]
      exact parse_commitment hinstr (by simp [hashBytes])
    | inr hpush =>
      obtain ⟨data,hdata,rfl⟩ := hpush
      exact parse_solved hinstr (by simp [hashBytes]) hdata
  have hmessages : coinbase.messages = b.coinbase.tx.messages := by
    have houtputs := finalizeCoinbase_messages hinstr site.network site.tip.height hspk
      (coinbase.output.filter (fun out => (CoinbaseMessage.parse out.scriptPubkey).isSome)) fees
    have hlast : [TxOut.mk 0 (Script.newOpReturn (unfinished site coinbaseSpk
        (coinbase.output.filter (fun out => (CoinbaseMessage.parse out.scriptPubkey).isSome))
        (template.transactions.map Prod.fst) fees template).commitmentData++more)].filterMap
          (fun out => CoinbaseMessage.parse out.scriptPubkey) = [] := by
      simp [hcommit]
    rw [hcommitted.tx,messages_append]
    refine Eq.trans ?_ (congrArg₂ (fun l l' => l++l') houtputs hlast).symm
    rw [List.append_nil,filterMap_filter_isSome]
    rfl
  have htxs : b.txs.map SegwitTx.tx = template.transactions.map (fun e => e.1.tx) := by
    rw [hcommitted.txs]
    simp [unfinished]
  refine ⟨coinbase,hcoinbase,fun h dbs height parent templateHash prevDiff => ?_⟩
  rw [htxs]
  exact BlockHandler.processBlock_same dbs height parent templateHash _ prevDiff _ hmessages

theorem mine_ground
    (hb : mine site sign grind coinbaseSpk coinbaseOutputs transactions fees template = .ok b) :
    ∃ hd, grind hd = some b.header := by
  obtain ⟨b₁,-,hb⟩ := bind_ok.mp hb
  obtain ⟨hd,hhd,hb⟩ := bind_ok.mp hb
  rw [require_ok] at hhd
  obtain rfl := (pure_ok _ _).mp hb
  exact ⟨_,hhd⟩

/-- A mined block builds on the validator's tip and commits to its transactions and witnesses.
On a signet it carries the signature of the wallet on itself. Its header meets the target that
it states. -/
theorem mined_block_commits (cell : Header → UInt64) {mainchainTip : BlockHash}
    (hb : generateBlock mainchainTip site sign (fun hd => grindResult hd (cell hd)) coinbaseSpk
      template = .ok b) :
    b.header.prevBlockhash = site.tip.blockHash ∧ b.header.merkleRoot = b.computeMerkleRoot ∧
      b.coinbase.witness = [[witnessReservedValue]] ∧
      (∃ out pushes, b.coinbase.tx.output.getLast? = some out ∧
        Script.instructions out.scriptPubkey =
          [some (.op opReturn),some (.pushBytes b.commitmentData)]++pushes ∧
        Solves sign site.challenge b pushes) ∧
      ∃ hd, grindResult hd (cell hd) = some b.header ∧
        ∀ [Sha256] (threads : UInt32), 0 < threads → LeftByThreads threads hd (cell hd) →
          b.header.MeetsTarget := by
  obtain ⟨coinbase,fees,-,-,hb⟩ := generateBlock_ok hb
  obtain ⟨more,pushes,hcommitted,hpushes,hsolves,-⟩ := mine_committed (fun _ _ => grindResult_nonce) hb
  obtain ⟨hd,hground⟩ := mine_ground hb
  refine ⟨hcommitted.prev,hcommitted.root,hcommitted.witness,
    ⟨_,pushes,hcommitted.last,?_,hsolves⟩,hd,hground,?_⟩
  · rw [hcommitted.commitmentData_eq]
    exact hpushes
  · intro _ threads ht hleft
    exact hleft.meets ht hground

end Sealed

section Sample

open Sample

namespace MiningSample

scoped instance : MerkleTree where
  calculateRoot l := .ofNat 256 (digest (l.map BitVec.toNat))
  computeWtxid tx := .ofNat 256 (digest (tx.tx.digest::tx.witness.flatten.map bytesDigest))

def tip : HeaderInfo := ⟨11,10,3,4,1000⟩

def site : Mining.Site := ⟨.signet,some [0x51],tip,5000⟩

def sign (txs : Mining.SignetTxs) : Option (Script × List (List UInt8)) :=
  some ([],[hashBytes txs.toSign.computeTxid])

def cell (_ : Header) : UInt64 := 0

def grind (hd : Header) : Option Header := grindResult hd (cell hd)

def transfer : SegwitTx := ⟨⟨2,0,[.spending ⟨5,0⟩],[⟨40,[0x51]⟩]⟩,[[[1,2]]]⟩

def template : BlockTemplate where
  prevBlockhash := 11
  bits := 0x207fffff
  mintime := 900
  coinbaseTxn := some ⟨2,0,[],[⟨50,[0x52]⟩,⟨0,m1Script 0 [1,2,3]⟩]⟩
  transactions := [(transfer,3)]

def handler : BlockHandler := .new (.new .bitcoin .regtest)

end MiningSample

open MiningSample

theorem mined_as_template_sample :
    ∃ b r, Mining.generateBlock 11 site sign grind [0x51] template = .ok b ∧
      handler.processBlock Dbs.empty.toConsensusDbs 4 11 b.block.blockHash none b.coinbase.tx
        (b.txs.map SegwitTx.tx) = .ok r ∧
      r.blockInfo.events.map BlockEvent.withoutVout = [.sidechainProposal 0 ⟨0,[1,2,3]⟩] := by
  obtain ⟨b,hb⟩ := exists_of_isOk (x := Mining.generateBlock 11 site sign grind [0x51] template)
    (by decide +kernel)
  obtain ⟨coinbase,hcoinbase,hall⟩ := mined_as_template (fun _ => rfl) cell (by decide) hb
  obtain rfl := Option.some.inj hcoinbase
  have hcase := hall handler Dbs.empty.toConsensusDbs 4 11 0 none
  obtain ⟨r,hr⟩ := exists_of_isOk (x := handler.processBlock Dbs.empty.toConsensusDbs 4 11 0 none
    ⟨2,0,[],[⟨50,[0x52]⟩,⟨0,m1Script 0 [1,2,3]⟩]⟩ [transfer.tx]) (by decide +kernel)
  obtain ⟨r',hr',hsame⟩ := hcase.left_ok hr
  refine ⟨b,r',hb,hr',?_⟩
  rw [← hsame.events]
  have hevents : (handler.processBlock Dbs.empty.toConsensusDbs 4 11 0 none
      ⟨2,0,[],[⟨50,[0x52]⟩,⟨0,m1Script 0 [1,2,3]⟩]⟩ [transfer.tx]).toOption.map
        (fun r => r.blockInfo.events) = some [.sidechainProposal 1 ⟨0,[1,2,3]⟩] := by
    decide +kernel
  rw [hr] at hevents
  have hread : r.blockInfo.events = [.sidechainProposal 1 ⟨0,[1,2,3]⟩] := Option.some.inj hevents
  rw [hread]
  rfl

theorem grindTest_zero {hd : Header} (hbits : hd.bits = 0x207fffff) : hd.grindTest 0 = true := by
  have htarget : (Sha256.target hd.bits).toNat = 0x207fffff := by
    rw [hbits]
    rfl
  have hdigest : ∀ l : List UInt8, (Sha256.sha256 l).toNat ≤ 0x207fffff := by
    intro l
    have hbyte := (l.getD 76 0).toNat_lt
    have hle : (if l.length = 80 then (l.getD 76 0).toNat else 3-(l.getD 0 0).toNat) ≤
        0x207fffff := by
      split_ifs
      · omega
      · omega
    exact (BitVec.toNat_ofNat _ _).le.trans ((Nat.mod_le _ _).trans hle)
  rw [Header.grindTest_iff]
  have hle := hdigest (Sha256.asByteArray (Sha256.sha256 { hd with nonce := 0 }.serialize))
  rw [← htarget] at hle
  exact hle

/-- One thread, which reports its first candidate. -/
theorem left_zero {hd : Header} (hbits : hd.bits = 0x207fffff) : LeftByThreads 1 hd 0 := by
  let i : Fin (1 : UInt32).toNat := ⟨0,by decide⟩
  let g := grindSearch hd 1
  have hmeets : g.meets 0 = true := grindTest_zero hbits
  have hthread : ∀ (f : Fin (1 : UInt32).toNat → Lib.Search.Thread UInt32) t,
      Function.update f i t = fun _ => t := by
    intro f t
    funext j
    have hj : j = i := Subsingleton.elim (α := Fin 1) j i
    rw [hj,Function.update_self]
  have hscan : g.start.step g i false = ⟨⟨false,g.empty⟩,fun _ => .scan 4096 0⟩ := by
    rw [Lib.Search.State.step,hthread]
    rfl
  have hwrite : (Lib.Search.State.mk ⟨false,g.empty⟩ (fun _ => .scan 4096 0)).step g i false =
      ⟨⟨true,g.empty⟩,fun _ => .write 0⟩ := by
    rw [Lib.Search.State.step,hthread]
    simp [Lib.Search.act,hmeets]
  have hdone : (Lib.Search.State.mk ⟨true,g.empty⟩ (fun _ => .write 0)).step g i false =
      ⟨⟨true,0⟩,fun _ => .done⟩ := by
    rw [Lib.Search.State.step,hthread]
    rfl
  have h₁ := (Lib.Search.Reach.start (g := g)).step i false (by simp [Lib.Search.start])
  rw [hscan] at h₁
  have h₂ := h₁.step i false (by simp)
  rw [hwrite] at h₂
  have h₃ := h₂.step i false (by simp)
  rw [hdone] at h₃
  exact ⟨3,_,h₃,fun _ => rfl,rfl⟩

theorem mined_block_commits_sample :
    ∃ b, Mining.generateBlock 11 site sign grind [0x51] template = .ok b ∧
      b.header.prevBlockhash = 11 ∧ b.header.merkleRoot = b.computeMerkleRoot ∧
      (∃ out, b.coinbase.tx.output.getLast? = some out ∧
        Script.instructions out.scriptPubkey = [some (.op opReturn),
          some (.pushBytes b.commitmentData),some (.pushBytes (Mining.solutionData []
            [hashBytes (b.stripped.signetTxsOf [0x51]).toSign.computeTxid]))]) ∧
      b.header.MeetsTarget := by
  have hbits : (Mining.generateBlock 11 site sign grind [0x51] template).toOption.map
      (fun b => b.header.bits) = some 0x207fffff := by decide +kernel
  obtain ⟨b,hb⟩ := exists_of_isOk (x := Mining.generateBlock 11 site sign grind [0x51] template)
    (by decide +kernel)
  obtain ⟨hprev,hroot,-,⟨out,pushes,hout,hpushes,scriptSig,witness,hsign,rfl⟩,hd,hground,hmeets⟩ :=
    mined_block_commits cell hb
  obtain ⟨rfl,rfl⟩ := Prod.mk.inj (Option.some.inj hsign)
  refine ⟨b,hb,hprev,hroot,⟨out,hout,hpushes⟩,hmeets 1 (by decide) (left_zero ?_)⟩
  have hnonce := congrArg Header.bits (grindResult_nonce hground)
  rw [hb] at hbits
  exact hnonce.symm.trans (Option.some.inj hbits)

end Sample

end Bip300301Enforcer
