import Bip300301Enforcer.Lib.Bytes
import Bip300301Enforcer.CusfEnforcer

/-! The headers are fetched from the node in batches, over REST or over JSON-RPC. The node
may reorganise between any two of its answers. -/
namespace Bip300301Enforcer
open Lib Bytes

namespace Header

def serialize (hd : Header) : List UInt8 :=
  leBytes 4 hd.version.toNat++leBytes 32 hd.prevBlockhash.toNat++leBytes 32 hd.merkleRoot.toNat++
    leBytes 4 hd.time.toNat++leBytes 4 hd.bits.toNat++leBytes 4 hd.nonce.toNat

def deserialize (bytes : List UInt8) : Option Header :=
  if bytes.length = 80 then some
    { version := .ofNat (leNat (bytes.take 4))
      prevBlockhash := .ofNat 256 (leNat ((bytes.drop 4).take 32))
      merkleRoot := .ofNat 256 (leNat ((bytes.drop 36).take 32))
      time := .ofNat (leNat ((bytes.drop 68).take 4))
      bits := .ofNat (leNat ((bytes.drop 72).take 4))
      nonce := .ofNat (leNat ((bytes.drop 76).take 4)) }
  else none

@[simp] theorem length_serialize (hd : Header) : hd.serialize.length = 80 := by
  simp [serialize]

theorem ofNat_leNat_leBytes (x : UInt32) : UInt32.ofNat (leNat (leBytes 4 x.toNat)) = x := by
  rw [leNat_leBytes_of_lt x.toNat_lt]
  exact UInt32.ofNat_toNat

theorem bitVec_leNat_leBytes (x : BitVec 256) :
    BitVec.ofNat 256 (leNat (leBytes 32 x.toNat)) = x := by
  have hlt : x.toNat < 256^32 := by
    have hx := x.isLt
    have hpow : (256 : ℕ)^32 = 2^256 := by decide
    omega
  rw [leNat_leBytes_of_lt hlt,BitVec.ofNat_toNat,BitVec.setWidth_eq]

theorem take_leBytes (width n : ℕ) : (leBytes width n).take width = leBytes width n :=
  List.take_of_length_le (by simp)

theorem drop_leBytes {width k : ℕ} (h : width ≤ k) (n : ℕ) : (leBytes width n).drop k = [] :=
  List.drop_eq_nil_of_le (by simpa using h)

theorem deserialize_serialize (hd : Header) : deserialize hd.serialize = some hd := by
  rw [deserialize,if_pos (length_serialize hd)]
  simp [serialize,List.drop_append,take_leBytes,drop_leBytes,ofNat_leNat_leBytes,
    bitVec_leNat_leBytes]

end Header

inductive MainRestClientError
  | http
  | invalidBlockHeadersLength (length : ℕ)
  | blockHeaderDecode (index : ℕ)
  | blockHeaderHeightOverflow (startHeight offset : ℕ)
  | invalidBlockHash
deriving DecidableEq

/-- The ways in which a header sync stops early. -/
inductive HeaderSyncError
  | jsonRpc
  | batchJsonRpc
  | mainRest (err : MainRestClientError)
  | blockNotInActiveChain (blockHash : BlockHash)
  | deserialize
  | transaction
  | shutdown
  | panic
deriving DecidableEq

abbrev FetchedHeader := Header × BlockHash × ℕ

section Fetch

variable [Bitcoin]

/-- The headers in the body of a REST answer, with heights from the given one on. -/
def decodeBlockHeaders (bytes : List UInt8) (startHeight : ℕ) :
    Except MainRestClientError (List FetchedHeader) := do
  Fallible.ensure (bytes.length%80 = 0) (.invalidBlockHeadersLength bytes.length)
  (List.range (bytes.length/80)).mapM (fun offset => do
    let header ← Fallible.require (Header.deserialize ((bytes.drop (80*offset)).take 80))
      (.blockHeaderDecode offset)
    Fallible.ensure (startHeight+offset < 2^32) (.blockHeaderHeightOverflow startHeight offset)
    return (header,header.blockHash,startHeight+offset))

def getBlockHeaders (answer : Option (List UInt8)) (blockHash : BlockHash) (startHeight : ℕ) :
    Except MainRestClientError (List FetchedHeader) := do
  let bytes ← Fallible.require answer .http
  let headers ← decodeBlockHeaders bytes startHeight
  Fallible.ensure (headers.head?.all (fun e => e.2.1 = blockHash)) .invalidBlockHash
  return headers

/-- Each header has the reported hash and is on top of the one before. -/
def validateRpcHeaders (startHeight : ℕ) :
    ℕ → Option BlockHash → List (BlockHash × List UInt8) → Except HeaderSyncError (List FetchedHeader)
  | _, _, [] => .ok []
  | offset, previousBlockHash, (blockHash,rawHeader)::rest => do
    Fallible.ensure (startHeight+offset < 2^32) .panic
    let header ← Fallible.require (Header.deserialize rawHeader) .deserialize
    Fallible.ensure (header.blockHash = blockHash &&
      previousBlockHash.all (fun previous => header.prevBlockhash = previous))
      (.blockNotInActiveChain blockHash)
    let validated ← validateRpcHeaders startHeight (offset+1) (some blockHash) rest
    return (header,blockHash,startHeight+offset)::validated

/-- Validate that two batches of answers describe one contiguous segment of a chain. -/
def validateRpcHeaderBatch (startBlockHash : BlockHash) (startHeight : ℕ)
    (blockHashes : List BlockHash) (rawHeaders : List (List UInt8)) :
    Except HeaderSyncError (List FetchedHeader) := do
  Fallible.ensure (blockHashes.head? = some startBlockHash) (.blockNotInActiveChain startBlockHash)
  validateRpcHeaders startHeight 0 none (blockHashes.zip rawHeaders)

/-- What the node answers to the requests of one step. The requests of a batch are answered
one by one, and are numbered. A request may fail. -/
structure NodeAnswers where
  getblockheader : BlockHash → Option ℕ
  getblockhash : ℕ → ℕ → Option BlockHash
  rawHeader : ℕ → BlockHash → Option (List UInt8)
  restHeaders : BlockHash → ℕ → Option (List UInt8)

def fetchHeaders (answers : NodeAnswers) (rest : Bool) (currentBlockHash : BlockHash)
    (currentHeight batchSize : ℕ) : Except HeaderSyncError (List FetchedHeader) :=
  if rest then
    (getBlockHeaders (answers.restHeaders currentBlockHash batchSize) currentBlockHash
      currentHeight).mapError .mainRest
  else do
    let blockHashes ← (List.range batchSize).mapM (fun offset =>
      Fallible.require (answers.getblockhash offset (currentHeight+offset)) .batchJsonRpc)
    let rawHeaders ← blockHashes.zipIdx.mapM (fun e =>
      Fallible.require (answers.rawHeader e.2 e.1) .batchJsonRpc)
    validateRpcHeaderBatch currentBlockHash currentHeight blockHashes rawHeaders

inductive HeaderSync
  | start (mainTip : BlockHash)
  /-- The best known ancestor of the tip is searched below a height whose block is missing. -/
  | search (mainTip : BlockHash) (mainTipHeight : ℕ) (bestKnownAncestor : Option (BlockHash × ℕ))
      (oldestKnownMissingAncestorHeight : ℕ)
  | genesis (mainTip : BlockHash) (mainTipHeight : ℕ)
  /-- The next batch starts with the current block. -/
  | fetch (mainTip : BlockHash) (mainTipHeight : ℕ) (currentBlockHash : BlockHash) (currentHeight : ℕ)
  | done (result : Except HeaderSyncError Unit)

def headerFetchBatchSize : ℕ := 2000

namespace HeaderSync

def fromAncestor (mainTip : BlockHash) (mainTipHeight : ℕ) : Option (BlockHash × ℕ) → HeaderSync
  | some (ancestor,height) =>
    if ancestor = mainTip then .done (.ok ()) else .fetch mainTip mainTipHeight ancestor height
  | none => .genesis mainTip mainTipHeight

/-- Ask for the block in the middle between the best known ancestor and the oldest missing
one. -/
def searchStep (answers : NodeAnswers) (dbs : BlockHashDbs) (mainTip : BlockHash) (mainTipHeight : ℕ)
    (best : Option (BlockHash × ℕ)) (missing : ℕ) : HeaderSync :=
  let midpointHeight := (missing+(best.map Prod.snd).getD 0)/2
  if some midpointHeight = best.map Prod.snd ∨ midpointHeight = missing then
    fromAncestor mainTip mainTipHeight best
  else match answers.getblockhash 0 midpointHeight with
    | none => .done (.error .jsonRpc)
    | some midpoint =>
      if dbs.header.contains midpoint then
        .search mainTip mainTipHeight (some (midpoint,midpointHeight)) missing
      else .search mainTip mainTipHeight best midpointHeight

/-- Fetch and store a batch. The headers of a batch are stored in one transaction, which may
fail. -/
def fetchStep (answers : NodeAnswers) (rest stored : Bool) (dbs : BlockHashDbs) (mainTip : BlockHash)
    (mainTipHeight : ℕ) (currentBlockHash : BlockHash) (currentHeight : ℕ) :
    HeaderSync × BlockHashDbs :=
  let batchSize := min headerFetchBatchSize (mainTipHeight-currentHeight+1)
  match fetchHeaders answers rest currentBlockHash currentHeight batchSize with
  | .error err => (.done (.error err),dbs)
  | .ok headers =>
    match headers.getLast? with
    | none => (.done (.error (.blockNotInActiveChain currentBlockHash)),dbs)
    | some (_,lastBlockHash,lastHeight) =>
      if stored then
        (if lastBlockHash = mainTip then .done (.ok ())
          else if lastHeight = mainTipHeight then .done (.error (.blockNotInActiveChain mainTip))
          else .fetch mainTip mainTipHeight lastBlockHash lastHeight,
          dbs.putHeaders (headers.map (fun e => (e.1,e.2.2))))
      else (.done (.error .transaction),dbs)

/-- One step of `sync_headers`. -/
def step (answers : NodeAnswers) (rest cancelled stored : Bool) (dbs : BlockHashDbs) :
    HeaderSync → HeaderSync × BlockHashDbs
  | .start mainTip =>
    if mainTip = allZeros then (.done (.ok ()),dbs)
    else match answers.getblockheader mainTip with
      | none => (.done (.error .jsonRpc),dbs)
      | some mainTipHeight =>
        if dbs.header.contains mainTip then
          (fromAncestor mainTip mainTipHeight (some (mainTip,mainTipHeight)),dbs)
        else (.search mainTip mainTipHeight none mainTipHeight,dbs)
  | .search mainTip mainTipHeight best missing =>
    (searchStep answers dbs mainTip mainTipHeight best missing,dbs)
  | .genesis mainTip mainTipHeight =>
    match answers.getblockhash 0 0 with
    | none => (.done (.error .jsonRpc),dbs)
    | some genesisBlockHash => (.fetch mainTip mainTipHeight genesisBlockHash 0,dbs)
  | .fetch mainTip mainTipHeight currentBlockHash currentHeight =>
    if cancelled then (.done (.error .shutdown),dbs)
    else fetchStep answers rest stored dbs mainTip mainTipHeight currentBlockHash currentHeight
  | .done result => (.done result,dbs)

end HeaderSync

end Fetch

end Bip300301Enforcer
