import Bip300301Enforcer.Lib.Bytes
import Bip300301Enforcer.Lib.SliceReader
import Bip300301Enforcer.M6ids
import Mathlib.Algebra.Order.BigOperators.Group.List

/-! Blinded withdrawals as bytes. They have no inputs, and the format of the `bitcoin` crate
then reads the count of the inputs as a mark. The older format has no mark. -/
namespace Bip300301Enforcer
open Lib Bytes SliceReader

/-- A count in as few bytes as it needs. -/
def compactSize (n : ℕ) : List UInt8 :=
  if n < 0xFD then [UInt8.ofNat n]
  else if n < 2^16 then 0xFD::leBytes 2 n
  else if n < 2^32 then 0xFE::leBytes 4 n
  else 0xFF::leBytes 8 n

def TxOut.encode (o : TxOut) : List UInt8 :=
  leBytes 8 o.value++(compactSize o.scriptPubkey.length++o.scriptPubkey)

def TxOut.Fits (o : TxOut) : Prop := o.value < 2^64 ∧ o.scriptPubkey.length < 2^64

namespace Transaction

/-- The part of a transaction after its inputs, for one that has none. -/
def encodeOutputs (tx : Transaction) : List UInt8 :=
  compactSize tx.output.length++(tx.output.flatMap TxOut.encode++leBytes 4 tx.lockTime.toNat)

/-- A transaction without inputs in the older format. -/
def legacyFrame (tx : Transaction) : List UInt8 :=
  leBytes 4 tx.version.toNat++(compactSize 0++tx.encodeOutputs)

/-- A transaction without inputs, with the mark and the flag that say that witness data
follows. -/
def segwitFrame (tx : Transaction) : List UInt8 :=
  leBytes 4 tx.version.toNat++([0,1]++(compactSize 0++tx.encodeOutputs))

def Fits (tx : Transaction) : Prop := tx.output.length < 2^64 ∧ ∀ o ∈ tx.output, o.Fits

end Transaction

theorem encodeOutputs_reads {ε : Type} {varInt : SliceReader ε UInt64}
    {txOut : SliceReader ε TxOut} {uint32 : SliceReader ε UInt32} (version lockTime : UInt32)
    {output : List TxOut} (hvarInt : ∀ n, Reads varInt (compactSize n.toNat) n)
    (huint32 : ∀ t, Reads uint32 (leBytes 4 t.toNat) t) (hlen : output.length < 2^64)
    (hout : ∀ o ∈ output, Reads txOut o.encode o) :
    Reads (varInt >>= fun count => readMany txOut count.toNat >>= fun output =>
        uint32 >>= fun t => pure (⟨version,t,[],output⟩ : Transaction))
      (Transaction.encodeOutputs ⟨version,lockTime,[],output⟩) ⟨version,lockTime,[],output⟩ := by
  have hnat : (UInt64.ofNat output.length).toNat = output.length := UInt64.toNat_ofNat_of_lt' hlen
  have hcount := hvarInt (.ofNat output.length)
  rw [hnat] at hcount
  have houtputs : Reads (readMany txOut (UInt64.ofNat output.length).toNat)
      (output.flatMap TxOut.encode) output := by
    rw [hnat]
    exact Reads.readMany hout
  have hlock := (huint32 lockTime).map (fun t => (⟨version,t,[],output⟩ : Transaction))
  exact hcount.bind (houtputs.bind hlock)

/-- What blinded withdrawals take from the consensus encoding of the `bitcoin` crate. -/
class ConsensusEncoding where
  EncodeError : Type
  serialize : Transaction → List UInt8
  deserialize : List UInt8 → Except EncodeError Transaction
  decodeVersion : SliceReader EncodeError UInt32
  decodeVarInt : SliceReader EncodeError UInt64
  decodeTxOut : SliceReader EncodeError TxOut
  decodeLockTime : SliceReader EncodeError UInt32

/-- A transaction without inputs is written with the mark. The decoder reads it back, and it
refuses every flag but one. The decoders of the fields read the fields of the format. -/
structure ConsensusEncoding.Documented [ConsensusEncoding] : Prop where
  serialize_eq : ∀ tx, tx.input = [] → serialize tx = tx.segwitFrame
  deserialize_segwit : ∀ tx, tx.input = [] → tx.Fits → deserialize tx.segwitFrame = .ok tx
  deserialize_flag : ∀ (version : List UInt8) flag rest, version.length = 4 → flag ≠ 1 →
    ∃ err, deserialize (version++0::flag::rest) = .error err
  version : ∀ v, Reads decodeVersion (leBytes 4 v.toNat) v
  varInt : ∀ n, Reads decodeVarInt (compactSize n.toNat) n
  lockTime : ∀ t, Reads decodeLockTime (leBytes 4 t.toNat) t
  version_consumes : Consumes decodeVersion
  varInt_consumes : Consumes decodeVarInt
  txOut_advances : Advances decodeTxOut
  lockTime_consumes : Consumes decodeLockTime

inductive BlindedM6DecodeError (ε : Type)
  | consensus (err : ε)
  | invalid (err : BlindedM6Error)

namespace BlindedM6
open ConsensusEncoding

variable [Bitcoin] [ConsensusEncoding]

def serialize (m : BlindedM6) : List UInt8 := ConsensusEncoding.serialize m.tx

/-- The older format. The outputs are read one by one, as many as the count says. -/
def decodeLegacy (standardErr : EncodeError) : SliceReader EncodeError Transaction := do
  let version ← decodeVersion
  let inputCount ← decodeVarInt
  ensure (inputCount == 0) standardErr
  let outputCount ← decodeVarInt
  let output ← readMany decodeTxOut outputCount.toNat
  let lockTime ← decodeLockTime
  return ⟨version,lockTime,[],output⟩

def deserializeTx (bytes : List UInt8) : Except EncodeError Transaction :=
  match ConsensusEncoding.deserialize bytes with
  | .ok tx => .ok tx
  | .error standardErr =>
    match decodeLegacy standardErr bytes with
    | .error err => .error err
    -- the cursor must be at the end
    | .ok (tx,rest) => if rest.length ≠ 0 then .error standardErr else .ok tx

def deserialize (bytes : List UInt8) :
    Except (BlindedM6DecodeError EncodeError) BlindedM6 := do
  let tx ← (deserializeTx bytes).mapError .consensus
  (tryFrom tx).mapError .invalid

section RoundTrip
variable {tx : Transaction} {m : BlindedM6}

omit [ConsensusEncoding] in
theorem two_le_length_of_tryFrom (h : tryFrom tx = .ok m) : 2 ≤ tx.output.length := by
  obtain ⟨spk,payouts,-,-,hout,hsum,-⟩ := tryFrom_ok h
  have hne : m.payout ≠ 0 := by
    unfold tryFrom at h
    simp only [Fallible.bind_ok,Fallible.ensure_ok,Fallible.require_ok,Fallible.pure_ok] at h
    obtain ⟨_,_,_,_,_,_,_,_,_,hpayout,_,_,rfl⟩ := h
    exact of_decide_eq_true hpayout
  cases payouts with
  | nil => exact absurd hsum.symm hne
  | cons o payouts => simp [hout]

omit [ConsensusEncoding] in
theorem fits_of_tryFrom (h : tryFrom tx = .ok m) (hlen : tx.output.length < 2^64)
    (hscript : ∀ o ∈ tx.output, o.scriptPubkey.length < 2^64) : tx.Fits := by
  obtain ⟨spk,payouts,-,-,hout,hsum,hlt,-⟩ := tryFrom_ok h
  refine ⟨hlen,fun o ho => ⟨?_,hscript o ho⟩⟩
  rw [hout] at ho
  rcases List.mem_cons.mp ho with rfl | ho
  · exact Nat.two_pow_pos 64
  · have hle := List.le_sum_of_mem (List.mem_map_of_mem (f := TxOut.value) ho)
    omega

omit [Bitcoin] [ConsensusEncoding] in
theorem compactSize_ne_flag {n : ℕ} (hn : 2 ≤ n) :
    ∃ flag rest, compactSize n = flag::rest ∧ flag ≠ 1 := by
  unfold compactSize
  split
  · refine ⟨_,_,rfl,fun heq => ?_⟩
    have := congrArg UInt8.toNat heq
    rw [UInt8.toNat_ofNat'] at this
    simp at this
    omega
  · split
    · exact ⟨_,_,rfl,by decide⟩
    · split
      · exact ⟨_,_,rfl,by decide⟩
      · exact ⟨_,_,rfl,by decide⟩

theorem deserialize_legacyFrame_error (hdoc : Documented) (h : tryFrom tx = .ok m) :
    ∃ err, ConsensusEncoding.deserialize tx.legacyFrame = .error err := by
  obtain ⟨flag,rest,hflag,hne⟩ := compactSize_ne_flag (two_le_length_of_tryFrom h)
  have hframe : tx.legacyFrame = leBytes 4 tx.version.toNat++
      0::flag::(rest++(tx.output.flatMap TxOut.encode++leBytes 4 tx.lockTime.toNat)) := by
    rw [Transaction.legacyFrame,Transaction.encodeOutputs,hflag]
    rfl
  rw [hframe]
  exact hdoc.deserialize_flag _ _ _ (length_leBytes ..) hne

omit [Bitcoin] in
theorem decodeLegacy_reads (hdoc : Documented) (err : EncodeError) (hin : tx.input = [])
    (hlen : tx.output.length < 2^64) (hout : ∀ o ∈ tx.output, Reads decodeTxOut o.encode o) :
    Reads (decodeLegacy err) tx.legacyFrame tx := by
  obtain ⟨version,lockTime,input,output⟩ := tx
  obtain rfl : input = [] := hin
  have houtputs := encodeOutputs_reads version lockTime hdoc.varInt hdoc.lockTime hlen hout
  exact (hdoc.version version).bind ((hdoc.varInt 0).bind ((Reads.ensure rfl err).bind houtputs))

omit [Bitcoin] in
theorem decodeLegacy_consumes (hdoc : Documented) (err : EncodeError) :
    Consumes (decodeLegacy err) := by
  have hout : Consumes decodeTxOut := fun bytes o rest h => (hdoc.txOut_advances bytes o rest h).1
  exact hdoc.version_consumes.bind fun _ => hdoc.varInt_consumes.bind fun _ =>
    (Consumes.ensure _ err).bind fun _ => hdoc.varInt_consumes.bind fun count =>
      (hout.readMany count.toNat).bind fun _ => hdoc.lockTime_consumes.bind fun _ => .pure _

theorem deserialize_of_deserializeTx {bytes : List UInt8} (h : tryFrom tx = .ok m)
    (htx : deserializeTx bytes = .ok tx) : deserialize bytes = .ok m := by
  rw [deserialize,htx]
  show (tryFrom tx).mapError _ = .ok m
  rw [h]
  rfl

theorem deserialize_serialize (hdoc : Documented) (h : tryFrom tx = .ok m) (hfits : tx.Fits) :
    deserialize m.serialize = .ok m := by
  obtain ⟨_,_,htx,hin,_⟩ := tryFrom_ok h
  apply deserialize_of_deserializeTx h
  rw [deserializeTx,serialize,htx,hdoc.serialize_eq tx hin,hdoc.deserialize_segwit tx hin hfits]

theorem deserialize_legacyFrame (hdoc : Documented) (h : tryFrom tx = .ok m)
    (hlen : tx.output.length < 2^64) (hout : ∀ o ∈ tx.output, Reads decodeTxOut o.encode o) :
    deserialize tx.legacyFrame = .ok m := by
  obtain ⟨_,_,_,hin,_⟩ := tryFrom_ok h
  obtain ⟨err,herr⟩ := deserialize_legacyFrame_error hdoc h
  have hread := decodeLegacy_reads hdoc err hin hlen hout []
  rw [List.append_nil] at hread
  apply deserialize_of_deserializeTx h
  rw [deserializeTx,herr]
  dsimp only
  rw [hread]
  rfl

end RoundTrip

end BlindedM6

open ConsensusEncoding in
/-- A bundle is read back from its stored bytes and from its older format. On any bytes the
reading stays within them, whatever count of outputs they claim. -/
theorem blindedM6_read_back [Bitcoin] [ConsensusEncoding] (hdoc : Documented) :
    (∀ tx m, BlindedM6.tryFrom tx = .ok m → tx.output.length < 2^64 →
      (∀ o ∈ tx.output, o.scriptPubkey.length < 2^64) →
      (∀ o ∈ tx.output, Reads decodeTxOut o.encode o) →
      BlindedM6.deserialize m.serialize = .ok m ∧
        BlindedM6.deserialize m.tx.legacyFrame = .ok m) ∧
    ∀ bytes : List UInt8, (∀ count, rounds decodeTxOut count bytes ≤ bytes.length+1) ∧
      ∀ err tx rest, BlindedM6.decodeLegacy err bytes = .ok (tx,rest) → rest <:+ bytes := by
  refine ⟨fun tx m h hlen hscript hout => ⟨?_,?_⟩,fun bytes => ⟨fun count => ?_,?_⟩⟩
  · exact BlindedM6.deserialize_serialize hdoc h (BlindedM6.fits_of_tryFrom h hlen hscript)
  · obtain ⟨_,_,htx,_⟩ := BlindedM6.tryFrom_ok h
    rw [htx]
    exact BlindedM6.deserialize_legacyFrame hdoc h hlen hout
  · exact hdoc.txOut_advances.rounds_le count bytes
  · intro err tx rest
    exact BlindedM6.decodeLegacy_consumes hdoc err bytes tx rest

-- The format with a decoder for transactions without inputs.
namespace WireFormat

def decodeUint (width : ℕ) : SliceReader Unit ℕ := leNat <$> readExact () width

def decodeUint32 : SliceReader Unit UInt32 := UInt32.ofNat <$> decodeUint 4

/-- A count that follows its first byte must not fit in a shorter form. -/
def decodeLong (width : ℕ) : SliceReader Unit UInt64 := do
  let n ← decodeUint width
  ensure (decide ((compactSize n).length = width+1)) ()
  return .ofNat n

def decodeVarInt : SliceReader Unit UInt64 := do
  let first ← decodeUint 1
  if first < 0xFD then return .ofNat first
  else if first = 0xFD then decodeLong 2
  else if first = 0xFE then decodeLong 4
  else decodeLong 8

def decodeTxOut : SliceReader Unit TxOut := do
  let value ← decodeUint 8
  let len ← decodeVarInt
  let scriptPubkey ← readExact () len.toNat
  return ⟨value,scriptPubkey⟩

def decodeTransaction : SliceReader Unit Transaction := do
  let version ← decodeUint32
  let inputCount ← decodeVarInt
  ensure (inputCount == 0) ()
  let flag ← decodeUint 1
  ensure (flag == 1) ()
  let inputCount ← decodeVarInt
  ensure (inputCount == 0) ()
  let outputCount ← decodeVarInt
  let output ← readMany decodeTxOut outputCount.toNat
  let lockTime ← decodeUint32
  return ⟨version,lockTime,[],output⟩

def deserialize (bytes : List UInt8) : Except Unit Transaction :=
  match decodeTransaction bytes with
  | .error err => .error err
  | .ok (tx,rest) => if rest.length ≠ 0 then .error () else .ok tx

scoped instance encoding : ConsensusEncoding where
  EncodeError := Unit
  serialize := Transaction.segwitFrame
  deserialize := deserialize
  decodeVersion := decodeUint32
  decodeVarInt := decodeVarInt
  decodeTxOut := decodeTxOut
  decodeLockTime := decodeUint32

theorem decodeUint_reads {width n : ℕ} (h : n < 256^width) :
    Reads (decodeUint width) (leBytes width n) n := by
  have hread := (Reads.readExact () (leBytes width n)).map leNat
  rw [length_leBytes,leNat_leBytes_of_lt h] at hread
  exact hread

theorem decodeUint32_reads (x : UInt32) : Reads decodeUint32 (leBytes 4 x.toNat) x := by
  have hread := (decodeUint_reads (show x.toNat < 256^4 from x.toNat_lt)).map UInt32.ofNat
  rw [UInt32.ofNat_toNat] at hread
  exact hread

theorem decodeLong_reads {width : ℕ} {n : UInt64} (h : n.toNat < 256^width)
    (hshort : (compactSize n.toNat).length = width+1) :
    Reads (decodeLong width) (leBytes width n.toNat) n := by
  have hread : Reads (decodeLong width) (leBytes width n.toNat++[]) (.ofNat n.toNat) :=
    (decodeUint_reads h).bind ((Reads.ensure (decide_eq_true hshort) ()).bind (Reads.pure _))
  rw [List.append_nil,UInt64.ofNat_toNat] at hread
  exact hread

theorem decodeVarInt_long {first width : ℕ} {n : UInt64} (hfirst : first < 256)
    (hread : Reads (decodeLong width) (leBytes width n.toNat) n)
    (hform : (if first < 0xFD then pure (.ofNat first) else if first = 0xFD then decodeLong 2
      else if first = 0xFE then decodeLong 4 else decodeLong 8) = decodeLong width) :
    Reads decodeVarInt (UInt8.ofNat first::leBytes width n.toNat) n := by
  have hbyte : Reads (decodeUint 1) [UInt8.ofNat first] first := by
    simpa [leBytes] using decodeUint_reads (show first < 256^1 by omega)
  refine hbyte.bind ?_
  rw [hform]
  exact hread

theorem decodeVarInt_reads (n : UInt64) : Reads decodeVarInt (compactSize n.toNat) n := by
  have hlt := n.toNat_lt
  by_cases h₁ : n.toNat < 0xFD
  · have hform : compactSize n.toNat = leBytes 1 n.toNat++[] := by simp [compactSize,h₁,leBytes]
    rw [hform]
    refine (decodeUint_reads (show n.toNat < 256^1 by omega)).bind ?_
    rw [if_pos h₁,UInt64.ofNat_toNat]
    exact Reads.pure n
  · by_cases h₂ : n.toNat < 2^16
    · have hform : compactSize n.toNat = UInt8.ofNat 0xFD::leBytes 2 n.toNat := by
        rw [compactSize,if_neg h₁,if_pos h₂]
        rfl
      rw [hform]
      exact decodeVarInt_long (by decide) (decodeLong_reads (by omega) (by simp [hform])) rfl
    · by_cases h₃ : n.toNat < 2^32
      · have hform : compactSize n.toNat = UInt8.ofNat 0xFE::leBytes 4 n.toNat := by
          rw [compactSize,if_neg h₁,if_neg h₂,if_pos h₃]
          rfl
        rw [hform]
        exact decodeVarInt_long (by decide) (decodeLong_reads (by omega) (by simp [hform])) rfl
      · have hform : compactSize n.toNat = UInt8.ofNat 0xFF::leBytes 8 n.toNat := by
          rw [compactSize,if_neg h₁,if_neg h₂,if_neg h₃]
          rfl
        rw [hform]
        exact decodeVarInt_long (by decide) (decodeLong_reads (by omega) (by simp [hform])) rfl

theorem decodeTxOut_reads {o : TxOut} (ho : o.Fits) : Reads decodeTxOut o.encode o := by
  have hlen : (UInt64.ofNat o.scriptPubkey.length).toNat = o.scriptPubkey.length :=
    UInt64.toNat_ofNat_of_lt' ho.2
  have hcount := decodeVarInt_reads (.ofNat o.scriptPubkey.length)
  rw [hlen] at hcount
  have hscript : Reads (readExact () (UInt64.ofNat o.scriptPubkey.length).toNat >>=
      fun scriptPubkey => pure (⟨o.value,scriptPubkey⟩ : TxOut)) o.scriptPubkey o := by
    have hread := (Reads.readExact () o.scriptPubkey).map (fun spk => (⟨o.value,spk⟩ : TxOut))
    rw [hlen]
    exact hread
  exact (decodeUint_reads (show o.value < 256^8 from ho.1)).bind (hcount.bind hscript)

theorem decodeTransaction_reads {tx : Transaction} (hin : tx.input = []) (hfits : tx.Fits) :
    Reads decodeTransaction tx.segwitFrame tx := by
  obtain ⟨version,lockTime,input,output⟩ := tx
  obtain rfl : input = [] := hin
  have houtputs := encodeOutputs_reads version lockTime decodeVarInt_reads decodeUint32_reads
    hfits.1 fun o ho => decodeTxOut_reads (hfits.2 o ho)
  have hflag : Reads (decodeUint 1) [1] 1 := decodeUint_reads (show 1 < 256^1 by decide)
  exact (decodeUint32_reads version).bind ((decodeVarInt_reads 0).bind
    ((Reads.ensure rfl ()).bind (hflag.bind ((Reads.ensure rfl ()).bind
      ((decodeVarInt_reads 0).bind ((Reads.ensure rfl ()).bind houtputs))))))

theorem decodeTransaction_flag {version rest : List UInt8} {flag : UInt8}
    (hversion : version.length = 4) (hflag : flag ≠ 1) :
    decodeTransaction (version++0::flag::rest) = .error () := by
  have hfirst : Reads decodeUint32 version (.ofNat (leNat version)) := by
    have hread := ((Reads.readExact () version).map leNat).map UInt32.ofNat
    rw [hversion] at hread
    exact hread
  have hbyte : Reads (decodeUint 1) [flag] flag.toNat := by
    have hread := (Reads.readExact () [flag]).map leNat
    exact hread
  have hne : (flag.toNat == 1) = false := by
    rw [beq_eq_false_iff_ne]
    exact fun h => hflag (UInt8.toNat_inj.mp h)
  have hcount : Reads decodeVarInt [0] 0 := decodeVarInt_reads 0
  unfold decodeTransaction
  rw [hfirst.bind_apply]
  show (decodeVarInt >>= _) ([0]++([flag]++rest)) = .error ()
  rw [hcount.bind_apply]
  have hzero : Reads (ensure ((0 : UInt64) == 0) ()) [] () := Reads.ensure rfl ()
  refine (hzero.bind_apply _).trans ?_
  show (decodeUint 1 >>= _) ([flag]++rest) = .error ()
  rw [hbyte.bind_apply,hne]
  rfl

theorem decodeUint_consumes (width : ℕ) : Consumes (decodeUint width) :=
  (Consumes.readExact () width).map leNat

theorem decodeLong_consumes (width : ℕ) : Consumes (decodeLong width) :=
  (decodeUint_consumes width).bind fun _ => (Consumes.ensure _ ()).bind fun _ => .pure _

theorem decodeVarInt_consumes : Consumes decodeVarInt := by
  refine (decodeUint_consumes 1).bind fun first => ?_
  split_ifs
  · exact .pure _
  · exact decodeLong_consumes 2
  · exact decodeLong_consumes 4
  · exact decodeLong_consumes 8

theorem decodeTxOut_advances : Advances decodeTxOut :=
  ((Advances.readExact () (show 0 < 8 by decide)).map leNat).bind fun _ =>
    decodeVarInt_consumes.bind fun len => (Consumes.readExact () len.toNat).bind fun _ => .pure _

theorem documented : ConsensusEncoding.Documented where
  serialize_eq _ _ := rfl
  deserialize_segwit tx hin hfits := by
    have hread := decodeTransaction_reads hin hfits []
    rw [List.append_nil] at hread
    show deserialize tx.segwitFrame = .ok tx
    rw [deserialize,hread]
    rfl
  deserialize_flag version flag rest hversion hflag := by
    refine ⟨(),?_⟩
    show deserialize _ = .error ()
    rw [deserialize,decodeTransaction_flag hversion hflag]
  version := decodeUint32_reads
  varInt := decodeVarInt_reads
  lockTime := decodeUint32_reads
  version_consumes := (decodeUint_consumes 4).map _
  varInt_consumes := decodeVarInt_consumes
  txOut_advances := decodeTxOut_advances
  lockTime_consumes := (decodeUint_consumes 4).map _

end WireFormat

open Sample M6idSample WireFormat in
theorem blindedM6_read_back_sample :
    BlindedM6.deserialize (BlindedM6.serialize ⟨5,1000,blinded shortFee⟩) =
        .ok ⟨5,1000,blinded shortFee⟩ ∧
      BlindedM6.deserialize (blinded shortFee).legacyFrame = .ok ⟨5,1000,blinded shortFee⟩ := by
  have hfits : ∀ o ∈ (blinded shortFee).output, o.Fits := by
    intro o ho
    simp only [blinded,List.mem_cons,List.not_mem_nil,or_false] at ho
    rcases ho with rfl | rfl
    · exact ⟨by decide,by decide⟩
    · exact ⟨by decide,by decide⟩
  exact (blindedM6_read_back documented).1 (blinded shortFee) _ (by decide +kernel)
    (by decide +kernel) (fun o ho => (hfits o ho).2) (fun o ho => decodeTxOut_reads (hfits o ho))

end Bip300301Enforcer
