import Bip300301Enforcer.Lib.SliceReader
import Bip300301Enforcer.Lib.VarInt
import Bip300301Enforcer.SyncHeaders

/-! The entries of Bitcoin Core's block index. Numbers are written as VarInts, and the status
of an entry says which positions follow. -/
namespace Bip300301Enforcer
open Lib Bytes

/-- The errors of a read. The last one stands for the panic of an addition. -/
inductive IndexReadError
  | unexpectedEof
  | invalidData
  | addOverflow
deriving DecidableEq

def u64Max : UInt64 := 0xFFFFFFFFFFFFFFFF

def readVarintLoop : UInt64 → List UInt8 → Except IndexReadError (UInt64 × List UInt8)
  | _, [] => .error .unexpectedEof
  | n, chData::rest =>
    if n > u64Max >>> 7 then .error .invalidData
    else
      let n := (n <<< 7) ||| (chData &&& 0x7F).toUInt64
      if chData &&& 0x80 ≠ 0 then
        if n = u64Max then .error .invalidData
        -- `n += 1` panics when it overflows
        else if n.toNat+1 < 2^64 then readVarintLoop (n+1) rest
        else .error .addOverflow
      else .ok (n,rest)

def readVarint : SliceReader IndexReadError UInt64 := readVarintLoop 0

/-- The `WriteVarInt` of Bitcoin Core. It fills a buffer of ten bytes from the lowest digit on,
and then writes the buffer backwards. -/
def writeVarIntTmp : ℕ → UInt64 → UInt8 → List UInt8
  | 0, _, _ => []
  | room+1, n, more =>
    let byte := (n &&& 0x7F).toUInt8 ||| more
    if n ≤ 0x7F then [byte] else byte::writeVarIntTmp room ((n >>> 7)-1) 0x80

def writeVarInt (n : UInt64) : List UInt8 := (writeVarIntTmp 10 n 0).reverse

section VarInt
open VarInt

theorem and_topBit (b : UInt8) : b &&& 0x80 ≠ 0 ↔ 128 ≤ b.toNat := by
  have hall : ∀ x : BitVec 8, x &&& 0x80#8 ≠ 0 ↔ 128 ≤ x.toNat := by decide +kernel
  rw [← UInt8.toNat_toBitVec,← hall b.toBitVec,Ne,← UInt8.toBitVec_inj]
  rfl

theorem toNat_low (b : UInt8) : (b &&& 0x7F).toNat = b.toNat%128 := by
  rw [UInt8.toNat_and]
  exact Nat.and_two_pow_sub_one_eq_mod b.toNat 7

theorem toNat_shift_or {n : UInt64} (hn : ¬n > u64Max >>> 7) (b : UInt8) :
    ((n <<< 7) ||| (b &&& 0x7F).toUInt64).toNat = 128*n.toNat+b.toNat%128 := by
  have hle : n.toNat ≤ 2^57-1 := UInt64.le_iff_toNat_le.mp (UInt64.not_lt.mp hn)
  have hshift : (n <<< 7).toNat = 2^7*n.toNat := by
    rw [UInt64.toNat_shiftLeft]
    show n.toNat <<< 7%2^64 = 2^7*n.toNat
    rw [Nat.shiftLeft_eq,Nat.mod_eq_of_lt (by omega),Nat.mul_comm]
  rw [UInt64.toNat_or,hshift,UInt8.toNat_toUInt64,toNat_low,
    ← Nat.two_pow_add_eq_or_of_lt (Nat.mod_lt _ (by decide))]

/-- The loop reads the number that the bytes stand for, if it fits. -/
theorem readVarintLoop_eq (n : UInt64) (bytes : List UInt8) :
    (∀ v rest, readVarintLoop n bytes = .ok (v,rest) ↔
      value n.toNat bytes = some (v.toNat,rest)) ∧
    readVarintLoop n bytes ≠ .error .addOverflow := by
  induction bytes generalizing n with
  | nil => simp [readVarintLoop,value]
  | cons b bytes ih =>
    have hlt := b.toNat_lt
    have hmax : u64Max.toNat = 2^64-1 := rfl
    rw [readVarintLoop]
    split
    · rename_i hn
      have hlow : 2^57-1 < n.toNat := UInt64.lt_iff_toNat_lt.mp hn
      refine ⟨fun v rest => ⟨(by cases ·),fun h => ?_⟩,by simp⟩
      have hle := le_of_value h
      have := v.toNat_lt
      omega
    · rename_i hn
      have hnat := toNat_shift_or hn b
      generalize (n <<< 7) ||| (b &&& 0x7F).toUInt64 = m at hnat ⊢
      dsimp only
      by_cases hb : 128 ≤ b.toNat
      · have hnext : 128*n.toNat+(b.toNat-128)+1 = m.toNat+1 := by omega
        rw [if_pos ((and_topBit b).mpr hb)]
        simp only [value,if_neg (show ¬b.toNat < 128 by omega),hnext]
        split
        · rename_i heq
          refine ⟨fun v rest => ⟨(by cases ·),fun h => ?_⟩,by simp⟩
          have hle := le_of_value h
          have := v.toNat_lt
          have hm : m.toNat = 2^64-1 := (congrArg UInt64.toNat heq).trans hmax
          omega
        · rename_i hne
          have hm : m.toNat ≠ 2^64-1 := fun h => hne (UInt64.toNat_inj.mp (h.trans hmax.symm))
          have := m.toNat_lt
          have hsucc : (m+1).toNat = m.toNat+1 := by
            rw [UInt64.toNat_add]
            exact Nat.mod_eq_of_lt (by simp; omega)
          rw [if_pos (by omega),← hsucc]
          exact ih (m+1)
      · have hmod : b.toNat%128 = b.toNat := Nat.mod_eq_of_lt (by omega)
        rw [if_neg (fun h => hb ((and_topBit b).mp h))]
        simp only [value,if_pos (show b.toNat < 128 by omega)]
        rw [← hmod,← hnat]
        refine ⟨fun v rest => ?_,by simp⟩
        simp [UInt64.toNat_inj]

theorem toUInt8_low_or {n : UInt64} {more : UInt8} {extra : ℕ}
    (hmore : more.toNat = 2^7*extra) (hextra : extra ≤ 1) :
    (n &&& 0x7F).toUInt8 ||| more = UInt8.ofNat (n.toNat%128+128*extra) := by
  apply UInt8.toNat_inj.mp
  have hlow : (n &&& 0x7F).toUInt8.toNat = n.toNat%128 := by
    rw [UInt64.toNat_toUInt8,UInt64.toNat_and]
    show (n.toNat &&& (2^7-1))%2^8 = n.toNat%128
    rw [Nat.and_two_pow_sub_one_eq_mod]
    omega
  rw [UInt8.toNat_or,hlow,hmore,Nat.or_comm,
    ← Nat.two_pow_add_eq_or_of_lt (Nat.mod_lt _ (by decide)),UInt8.toNat_ofNat']
  omega

theorem toNat_shift_sub {n : UInt64} (hn : ¬n ≤ 0x7F) :
    ((n >>> 7)-1).toNat+1 = n.toNat/128 := by
  have hlt : 127 < n.toNat := UInt64.lt_iff_toNat_lt.mp (UInt64.not_le.mp hn)
  have hshift : (n >>> 7).toNat = n.toNat/128 := by
    rw [UInt64.toNat_shiftRight]
    exact Nat.shiftRight_eq_div_pow n.toNat 7
  have hle : (1 : UInt64) ≤ n >>> 7 := by
    rw [UInt64.le_iff_toNat_le,hshift]
    show 1 ≤ n.toNat/128
    omega
  rw [UInt64.toNat_sub_of_le _ _ hle,hshift]
  show n.toNat/128-1+1 = n.toNat/128
  omega

theorem writeVarIntTmp_succ {room : ℕ} {n : UInt64} {more : UInt8} {extra : ℕ}
    (hmore : more.toNat = 2^7*extra) (hextra : extra ≤ 1)
    (hnext : ∀ m : UInt64, ¬n ≤ 0x7F → m.toNat+1 = n.toNat/128 →
      (writeVarIntTmp room m 0x80).reverse = high (m.toNat+1)) :
    (writeVarIntTmp (room+1) n more).reverse =
      high (n.toNat/128)++[UInt8.ofNat (n.toNat%128+128*extra)] := by
  simp only [writeVarIntTmp,toUInt8_low_or hmore hextra]
  split
  · rename_i hn
    have hsmall : n.toNat ≤ 127 := UInt64.le_iff_toNat_le.mp hn
    rw [Nat.div_eq_of_lt (by omega),high_zero]
    rfl
  · rename_i hn
    have heq := toNat_shift_sub hn
    rw [List.reverse_cons,hnext _ hn heq,heq]

theorem writeVarIntTmp_more {room : ℕ} {n : UInt64} (hroom : n.toNat < 128^(room+1)) :
    (writeVarIntTmp (room+1) n 0x80).reverse = high (n.toNat+1) := by
  induction room generalizing n with
  | zero =>
    rw [writeVarIntTmp_succ rfl le_rfl,high_succ,Nat.mul_one]
    intro m hn
    exact absurd (UInt64.le_iff_toNat_le.mpr (show n.toNat ≤ 127 by omega)) hn
  | succ room ih =>
    have hpow : 128^(room+1+1) = 128*128^(room+1) := Nat.pow_succ'
    rw [writeVarIntTmp_succ rfl le_rfl,high_succ,Nat.mul_one]
    intro m _ hm
    exact ih (by omega)

theorem writeVarInt_eq (n : UInt64) : writeVarInt n = encode n.toNat := by
  have hlt := n.toNat_lt
  have hroom : n.toNat < 128^(9+1) := by omega
  have hpow : (128 : ℕ)^(9+1) = 128*128^(8+1) := Nat.pow_succ'
  refine writeVarIntTmp_succ (show (0 : UInt8).toNat = 2^7*0 from rfl) (Nat.zero_le 1) ?_
  intro m _ hm
  exact writeVarIntTmp_more (by omega)

theorem readVarint_writeVarInt (n : UInt64) (rest : List UInt8) :
    readVarint (writeVarInt n++rest) = .ok (n,rest) := by
  rw [writeVarInt_eq]
  exact ((readVarintLoop_eq 0 _).1 n rest).mpr (value_encode n.toNat rest)

theorem eq_writeVarInt_of_readVarint {bytes : List UInt8} {n : UInt64} {rest : List UInt8}
    (h : readVarint bytes = .ok (n,rest)) : bytes = writeVarInt n++rest := by
  rw [writeVarInt_eq]
  exact encode_of_value (((readVarintLoop_eq 0 bytes).1 n rest).mp h)

theorem readVarint_error_iff {bytes : List UInt8} :
    (∃ err, readVarint bytes = .error err) ↔
      (∀ b ∈ bytes, 128 ≤ b.toNat) ∨ ∃ v rest, value 0 bytes = some (v,rest) ∧ 2^64 ≤ v := by
  have hok := (readVarintLoop_eq 0 bytes).1
  rw [← value_eq_none_iff]
  constructor
  · rintro ⟨err,herr⟩
    rcases hvalue : value 0 bytes with _ | ⟨v,rest⟩
    · exact .inl rfl
    · refine .inr ⟨v,rest,rfl,?_⟩
      by_contra hlt
      have hv : (UInt64.ofNat v).toNat = v := UInt64.toNat_ofNat_of_lt' (Nat.lt_of_not_le hlt)
      have hread := (hok (.ofNat v) rest).mpr (hv.symm ▸ hvalue)
      exact nomatch herr.symm.trans hread
  · intro h
    rcases hread : readVarint bytes with err | ⟨v,rest⟩
    · exact ⟨err,rfl⟩
    · have hvalue : value 0 bytes = some (v.toNat,rest) := (hok v rest).mp hread
      rcases h with hnone | ⟨w,rest',hsome,hle⟩
      · exact nomatch hnone.symm.trans hvalue
      · obtain ⟨rfl,-⟩ : w = v.toNat ∧ rest' = rest := by simpa using hsome.symm.trans hvalue
        have := v.toNat_lt
        omega

end VarInt

abbrev BlockStatus := UInt32

namespace BlockStatus

def haveData : UInt32 := 8

def haveUndo : UInt32 := 16

def hasData (status : BlockStatus) : Bool := status &&& haveData != 0

def hasUndo (status : BlockStatus) : Bool := status &&& haveUndo != 0

end BlockStatus

structure CDiskBlockIndex where
  version : UInt64
  height : UInt64
  status : BlockStatus
  txCount : UInt64
  fileNumber : Option UInt32
  dataPos : Option UInt64
  undoPos : Option UInt64
  blockVersion : UInt32
  prevBlockHash : BlockHash
  merkleRoot : BitVec 256
  timestamp : UInt32
  difficultyTarget : UInt32
  nonce : UInt32
deriving DecidableEq

section Fields
open SliceReader

def readUint256 : SliceReader IndexReadError (BitVec 256) := do
  return .ofNat 256 (leNat (← readExact .unexpectedEof 32))

def readUint32 : SliceReader IndexReadError UInt32 := do
  return .ofNat (leNat (← readExact .unexpectedEof 4))

theorem readUint32_reads (x : UInt32) : Reads readUint32 (leBytes 4 x.toNat) x := by
  have hread := (Reads.readExact IndexReadError.unexpectedEof (leBytes 4 x.toNat)).map
    (fun bytes => UInt32.ofNat (leNat bytes))
  rw [length_leBytes,Header.ofNat_leNat_leBytes] at hread
  exact hread

theorem readUint256_reads (x : BitVec 256) : Reads readUint256 (leBytes 32 x.toNat) x := by
  have hread := (Reads.readExact IndexReadError.unexpectedEof (leBytes 32 x.toNat)).map
    (fun bytes => BitVec.ofNat 256 (leNat bytes))
  rw [length_leBytes,Header.bitVec_leNat_leBytes] at hread
  exact hread

theorem readVarint_reads (n : UInt64) : Reads readVarint (writeVarInt n) n :=
  readVarint_writeVarInt n

end Fields

namespace CDiskBlockIndex
open SliceReader

def deserialize : SliceReader IndexReadError CDiskBlockIndex := do
  let version ← readVarint
  let height ← readVarint
  let statusRaw ← readVarint
  let status : BlockStatus := statusRaw.toUInt32
  let txCount ← readVarint
  let fileNumber ← readIf (status.hasData || status.hasUndo) (UInt64.toUInt32 <$> readVarint)
  let dataPos ← readIf status.hasData readVarint
  let undoPos ← readIf status.hasUndo readVarint
  let blockVersion ← readUint32
  let prevBlockHash ← readUint256
  let merkleRoot ← readUint256
  let timestamp ← readUint32
  let difficultyTarget ← readUint32
  let nonce ← readUint32
  return CDiskBlockIndex.mk version height status txCount fileNumber dataPos undoPos blockVersion
    prevBlockHash merkleRoot timestamp difficultyTarget nonce

end CDiskBlockIndex

/-- An entry of the node's block index, with the positions that its status may leave out. -/
structure CBlockIndex where
  version : UInt64
  height : UInt64
  status : UInt32
  txCount : UInt64
  file : UInt32
  dataPos : UInt64
  undoPos : UInt64
  header : Header
deriving DecidableEq

namespace CBlockIndex

def serialize (entry : CBlockIndex) : List UInt8 :=
  writeVarInt entry.version++(writeVarInt entry.height++(writeVarInt entry.status.toUInt64++
    (writeVarInt entry.txCount++
      ((if entry.status &&& (8 ||| 16) ≠ 0 then writeVarInt entry.file.toUInt64 else [])++
        ((if entry.status &&& 8 ≠ 0 then writeVarInt entry.dataPos else [])++
          ((if entry.status &&& 16 ≠ 0 then writeVarInt entry.undoPos else [])++
            entry.header.serialize))))))

/-- The fields that the node wrote. -/
def written (entry : CBlockIndex) : CDiskBlockIndex where
  version := entry.version
  height := entry.height
  status := entry.status
  txCount := entry.txCount
  fileNumber := if entry.status &&& (8 ||| 16) ≠ 0 then some entry.file else none
  dataPos := if entry.status &&& 8 ≠ 0 then some entry.dataPos else none
  undoPos := if entry.status &&& 16 ≠ 0 then some entry.undoPos else none
  blockVersion := entry.header.version
  prevBlockHash := entry.header.prevBlockhash
  merkleRoot := entry.header.merkleRoot
  timestamp := entry.header.time
  difficultyTarget := entry.header.bits
  nonce := entry.header.nonce

open SliceReader

theorem and_haveData (status : BlockStatus) : status &&& 8 ≠ 0 ↔ status.hasData = true := by
  rw [BlockStatus.hasData,bne_iff_ne]
  rfl

theorem and_haveUndo (status : BlockStatus) : status &&& 16 ≠ 0 ↔ status.hasUndo = true := by
  rw [BlockStatus.hasUndo,bne_iff_ne]
  rfl

theorem and_haveData_haveUndo (status : BlockStatus) :
    status &&& (8 ||| 16) ≠ 0 ↔ (status.hasData || status.hasUndo) = true := by
  have hand : status &&& (8 ||| 16) = (status &&& 8) ||| (status &&& 16) := by
    apply UInt32.toNat_inj.mp
    simp only [UInt32.toNat_and,UInt32.toNat_or,Nat.and_or_distrib_left]
  rw [hand,Bool.or_eq_true,← and_haveData,← and_haveUndo,Ne,UInt32.or_eq_zero_iff]
  tauto

theorem deserialize_reads (entry : CBlockIndex) :
    Reads CDiskBlockIndex.deserialize entry.serialize entry.written := by
  have hstatus : entry.status.toUInt64.toUInt32 = entry.status := by simp
  have hfile : entry.file.toUInt64.toUInt32 = entry.file := by simp
  have hheader : entry.header.serialize = leBytes 4 entry.header.version.toNat++
      (leBytes 32 entry.header.prevBlockhash.toNat++(leBytes 32 entry.header.merkleRoot.toNat++
        (leBytes 4 entry.header.time.toNat++(leBytes 4 entry.header.bits.toNat++
          (leBytes 4 entry.header.nonce.toNat++[]))))) := by
    simp [Header.serialize]
  simp only [serialize,written,and_haveData,and_haveUndo,and_haveData_haveUndo,hheader]
  refine (readVarint_reads _).bind ((readVarint_reads _).bind ((readVarint_reads _).bind
    ((readVarint_reads _).bind ?_)))
  rw [hstatus]
  refine (((readVarint_reads _).map UInt64.toUInt32).readIf _).bind
    (((readVarint_reads _).readIf _).bind (((readVarint_reads _).readIf _).bind ?_))
  rw [hfile]
  exact (readUint32_reads _).bind ((readUint256_reads _).bind ((readUint256_reads _).bind
    ((readUint32_reads _).bind ((readUint32_reads _).bind ((readUint32_reads _).bind (.pure _))))))

end CBlockIndex

/-- Decoding inverts the encoding of the node: for numbers in both directions, with nothing
but overlong and cut texts rejected, and for whole entries. -/
theorem blockIndex_read_back :
    (∀ n rest, readVarint (writeVarInt n++rest) = .ok (n,rest)) ∧
    (∀ bytes n rest, readVarint bytes = .ok (n,rest) → bytes = writeVarInt n++rest) ∧
    (∀ bytes, readVarint bytes ≠ .error .addOverflow) ∧
    (∀ bytes, (∃ err, readVarint bytes = .error err) ↔
      (∀ b ∈ bytes, 128 ≤ b.toNat) ∨
        ∃ v rest, VarInt.value 0 bytes = some (v,rest) ∧ 2^64 ≤ v) ∧
    ∀ (entry : CBlockIndex) rest,
      CDiskBlockIndex.deserialize (entry.serialize++rest) = .ok (entry.written,rest) :=
  ⟨readVarint_writeVarInt,fun _ _ _ => eq_writeVarInt_of_readVarint,
    fun bytes => (readVarintLoop_eq 0 bytes).2,fun _ => readVarint_error_iff,
    CBlockIndex.deserialize_reads⟩

end Bip300301Enforcer
