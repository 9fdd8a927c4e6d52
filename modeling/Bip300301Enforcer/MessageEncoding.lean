import Bip300301Enforcer.Lib.Bytes
import Bip300301Enforcer.Messages
import Bip300301Enforcer.Runs

/-! Writing coinbase messages as scripts, and reading them back. -/
namespace Bip300301Enforcer
open Lib Bytes Parse

/-- A push is shorter than 2^32 bytes. -/
structure PushBytesError where
  len : ℕ
deriving DecidableEq

/-- `PushBytesBuf::try_from`. -/
def pushBytes (data : List UInt8) : Except PushBytesError (List UInt8) :=
  if data.length < 2^32 then .ok data else .error ⟨data.length⟩

namespace M4AckBundles

def repeatPreviousTag : UInt8 := 0x00

def oneByteTag : UInt8 := 0x01

def twoBytesTag : UInt8 := 0x02

def leadingBy50Tag : UInt8 := 0x03

def versionTag : M4AckBundles → UInt8
  | .repeatPrevious => repeatPreviousTag
  | .oneByte _ => oneByteTag
  | .twoBytes _ => twoBytesTag
  | .leadingBy50 => leadingBy50Tag

/-- `u16::to_le_bytes`. -/
def toLeBytes (v : UInt16) : List UInt8 := leBytes 2 v.toNat

def upvoteBytes : M4AckBundles → List UInt8
  | .oneByte upvotes => upvotes
  | .twoBytes upvotes => upvotes.flatMap toLeBytes
  | _ => []

/-- The parser of the body, with the rest of its input. -/
def parseInput (input : List UInt8) : Option (List UInt8 × M4AckBundles) :=
  match input with
  | [] => none
  | version::input =>
    if version = repeatPreviousTag then do
      let _ ← eof input
      return (input,.repeatPrevious)
    else if version = oneByteTag then some ([],.oneByte input)
    else if version = twoBytesTag then do
      let (upvotes,input) := pairs input
      let _ ← eof input
      return (input,.twoBytes (upvotes.map readU16))
    else if version = leadingBy50Tag then do
      let _ ← eof input
      return (input,.leadingBy50)
    else none

end M4AckBundles

namespace CoinbaseMessage

/-- The data that a message pushes: its tag and then its body. -/
def data : CoinbaseMessage → List UInt8
  | .m1ProposeSidechain s description => m1Tag++[s]++description
  | .m2AckSidechain s descriptionHash => m2Tag++[s]++hashBytes descriptionHash
  | .m3ProposeBundle s bundleTxid => m3Tag++[s]++hashBytes bundleTxid
  | .m4AckBundles m4 => m4Tag++[m4.versionTag]++m4.upvoteBytes
  | .m7BmmAccept s commitment => m7Tag++[s]++hashBytes commitment

/-- `ScriptBuf::try_from`. -/
def tryIntoScript [Bitcoin] (msg : CoinbaseMessage) : Except PushBytesError Script :=
  (pushBytes msg.data).map newOpReturn

/-- `M1ProposeSidechain::parse`. The description is the rest of the input. -/
def parseM1Input (input : List UInt8) : Option (List UInt8 × CoinbaseMessage) := do
  let (s,description) ← takeByte input
  return ([],.m1ProposeSidechain s description)

/-- The parsers of `M2`, `M3` and `M7`. -/
def parseSlotHashInput (make : SidechainNumber → BitVec 256 → CoinbaseMessage)
    (input : List UInt8) : Option (List UInt8 × CoinbaseMessage) := do
  let (s,input) ← takeByte input
  let (bytes,input) ← take 32 input
  let _ ← eof input
  return (input,make s (Parse.hash bytes))

/-- The tag of a message chooses the parser of its body. -/
def parseDataInput (data : List UInt8) : Option (List UInt8 × CoinbaseMessage) :=
  match tag m1Tag data, tag m2Tag data, tag m3Tag data, tag m4Tag data, tag m7Tag data with
  | some input, _, _, _, _ => parseM1Input input
  | none, some input, _, _, _ => parseSlotHashInput .m2AckSidechain input
  | none, none, some input, _, _ => parseSlotHashInput .m3ProposeBundle input
  | none, none, none, some input, _ =>
    (M4AckBundles.parseInput input).map (fun r => (r.1,.m4AckBundles r.2))
  | none, none, none, none, some input => parseSlotHashInput .m7BmmAccept input
  | none, none, none, none, none => none

/-- `CoinbaseMessage::parse`, with the rest of the push that it returns. -/
def parseInput [Bitcoin] (script : Script) : Option (List UInt8 × CoinbaseMessage) :=
  match instructions script with
  | [some (.op code),some (.pushBytes data)] => if code = opReturn then parseDataInput data else none
  | _ => none

end CoinbaseMessage

namespace Script

theorem readPush_leBytes {width : ℕ} {data : List UInt8} (h : data.length < 256^width) :
    readPush width (leBytes width data.length++data) = some (data,[]) := by
  have hlen := length_leBytes width data.length
  have hn : (leBytes width data.length).foldr (fun b n => b.toNat+256*n) 0 = data.length :=
    leNat_leBytes_of_lt h
  simp only [readPush,List.take_left' hlen,List.drop_left' hlen,hn,List.length_append,hlen,
    Nat.le_add_right,Nat.le_refl,decide_true,Bool.and_self,if_true,List.take_length,
    List.drop_length]

/-- A script that returns a push decodes into that push, for every length that a push
can have. -/
theorem instructions_newOpReturn_all {data : List UInt8} (h : data.length < 2^32) :
    instructions (newOpReturn data) = [some (.op 0x6a),some (.pushBytes data)] := by
  by_cases h₁ : data.length < 0x4c
  · exact instructions_newOpReturn h₁
  have hret : ¬ (0x6a : UInt8) ≤ 0x4b ∧ (0x6a : UInt8) ≠ 0x4c ∧ (0x6a : UInt8) ≠ 0x4d ∧
      (0x6a : UInt8) ≠ 0x4e := by decide
  have hend : ∀ fuel, decode fuel [] = [] := by
    intro fuel
    cases fuel <;> rfl
  by_cases h₂ : data.length < 0x100
  · have hpush : pushSlice data = 0x4c::(leBytes 1 data.length++data) := by
      simp [pushSlice,h₁,h₂,leBytes]
    have hread : readPush 1 (leBytes 1 data.length++data) = some (data,[]) :=
      readPush_leBytes (by omega)
    have hop : ¬ (0x4c : UInt8) ≤ 0x4b := by decide
    simp only [instructions,newOpReturn,hpush,List.length_cons,decode,hret,hop,if_false,if_true,
      hread,hend]
  by_cases h₃ : data.length < 0x10000
  · have hpush : pushSlice data = 0x4d::(leBytes 2 data.length++data) := by
      simp [pushSlice,h₁,h₂,h₃,leBytes,List.range_succ]
    have hread : readPush 2 (leBytes 2 data.length++data) = some (data,[]) :=
      readPush_leBytes (by omega)
    have hop : ¬ (0x4d : UInt8) ≤ 0x4b ∧ (0x4d : UInt8) ≠ 0x4c := by decide
    simp only [instructions,newOpReturn,hpush,List.length_cons,decode,hret,hop,if_false,if_true,
      hread,hend]
  · have hpush : pushSlice data = 0x4e::(leBytes 4 data.length++data) := by
      simp [pushSlice,h₁,h₂,h₃,leBytes,List.range_succ]
    have hread : readPush 4 (leBytes 4 data.length++data) = some (data,[]) :=
      readPush_leBytes (by omega)
    have hop : ¬ (0x4e : UInt8) ≤ 0x4b ∧ (0x4e : UInt8) ≠ 0x4c ∧ (0x4e : UInt8) ≠ 0x4d := by decide
    simp only [instructions,newOpReturn,hpush,List.length_cons,decode,hret,hop,if_false,if_true,
      hread,hend]

end Script

section RoundTrip

theorem hash_hashBytes (x : BitVec 256) : Parse.hash (hashBytes x) = x := by
  have hfold : Parse.hash (hashBytes x) = BitVec.ofNat 256 (leNat (hashBytes x)) := rfl
  rw [hfold,leNat_hashBytes,BitVec.ofNat_toNat,BitVec.setWidth_eq]

theorem length_hashBytes (x : BitVec 256) : (hashBytes x).length = 32 := length_leBytes 32 x.toNat

namespace M4AckBundles

theorem toLeBytes_eq (v : UInt16) : ∃ lo hi, toLeBytes v = [lo,hi] ∧ readU16 (lo,hi) = v := by
  refine ⟨UInt8.ofNat v.toNat,UInt8.ofNat (v.toNat/256),?_,?_⟩
  · rw [toLeBytes,leBytes_succ,leBytes_succ]
    rfl
  · apply UInt16.toNat_inj.mp
    have hv := v.toNat_lt
    simp only [readU16,UInt16.toNat_add,UInt16.toNat_mul,UInt8.toNat_toUInt16,UInt8.toNat_ofNat']
    have h256 : (256 : UInt16).toNat = 256 := rfl
    rw [h256]
    omega

theorem pairs_flatMap (upvotes : List UInt16) :
    (pairs (upvotes.flatMap toLeBytes)).2 = [] ∧
      (pairs (upvotes.flatMap toLeBytes)).1.map readU16 = upvotes := by
  induction upvotes with
  | nil => exact ⟨rfl,rfl⟩
  | cons v upvotes ih =>
    obtain ⟨lo,hi,hb,hr⟩ := toLeBytes_eq v
    have hcons : (v::upvotes).flatMap toLeBytes = lo::hi::upvotes.flatMap toLeBytes := by
      rw [List.flatMap_cons,hb]
      rfl
    rw [hcons]
    exact ⟨ih.1,by rw [pairs,List.map_cons,hr,ih.2]⟩

theorem parseInput_body (m4 : M4AckBundles) :
    parseInput (m4.versionTag::m4.upvoteBytes) = some ([],m4) := by
  cases m4 with
  | repeatPrevious => rfl
  | oneByte upvotes => rfl
  | twoBytes upvotes =>
    obtain ⟨hrest,hpairs⟩ := pairs_flatMap upvotes
    have hne : twoBytesTag ≠ repeatPreviousTag ∧ twoBytesTag ≠ oneByteTag := by decide
    simp only [parseInput,versionTag,upvoteBytes,hne.1,hne.2,if_false,if_true,hrest,hpairs,eof,
      List.isEmpty_nil]
    rfl
  | leadingBy50 => rfl

theorem parse_eq (input : List UInt8) : parse input = (parseInput input).map Prod.snd := by
  unfold parse parseInput
  split
  · cases hrest : eof _ <;> simp [repeatPreviousTag,hrest]
  · simp [repeatPreviousTag,oneByteTag]
  · cases hrest : eof _ <;> simp [repeatPreviousTag,oneByteTag,twoBytesTag,hrest]
  · cases hrest : eof _ <;>
      simp [repeatPreviousTag,oneByteTag,twoBytesTag,leadingBy50Tag,hrest]
  · rename_i h0 h1 h2 h3
    split
    · rfl
    · rename_i version input
      have hne : version ≠ repeatPreviousTag ∧ version ≠ oneByteTag ∧ version ≠ twoBytesTag ∧
          version ≠ leadingBy50Tag :=
        ⟨fun he => h0 input (he ▸ rfl),fun he => h1 input (he ▸ rfl),
          fun he => h2 input (he ▸ rfl),fun he => h3 input (he ▸ rfl)⟩
      simp [hne]

end M4AckBundles

namespace CoinbaseMessage

theorem parseSlotHash_eq (make : SidechainNumber → BitVec 256 → CoinbaseMessage)
    (input : List UInt8) : (parseSlotHash input).map (fun p => make p.1 p.2) =
      (parseSlotHashInput make input).map Prod.snd := by
  unfold parseSlotHash parseSlotHashInput
  cases input with
  | nil => rfl
  | cons s input =>
    cases ht : take 32 input with
    | none => simp [takeByte,ht]
    | some r => cases he : eof r.2 <;> simp [takeByte,ht,he]

theorem parseData_eq (data : List UInt8) :
    parseData data = (parseDataInput data).map Prod.snd := by
  unfold parseData parseDataInput
  cases tag m1Tag data with
  | some input => cases hb : takeByte input <;> simp [parseM1,parseM1Input,hb]
  | none =>
    cases tag m2Tag data with
    | some input => exact parseSlotHash_eq .m2AckSidechain input
    | none =>
      cases tag m3Tag data with
      | some input => exact parseSlotHash_eq .m3ProposeBundle input
      | none =>
        cases tag m4Tag data with
        | some input => simp [M4AckBundles.parse_eq,Function.comp_def]
        | none =>
          cases tag m7Tag data with
          | some input => exact parseSlotHash_eq .m7BmmAccept input
          | none => rfl

theorem parseSlotHashInput_body (make : SidechainNumber → BitVec 256 → CoinbaseMessage)
    (s : SidechainNumber) (x : BitVec 256) :
    parseSlotHashInput make (s::hashBytes x) = some ([],make s x) := by
  have hlen := length_hashBytes x
  have htake : take 32 (hashBytes x) = some (hashBytes x,[]) := by
    simp [take,hlen,List.take_of_length_le,List.drop_of_length_le]
  simp only [parseSlotHashInput,takeByte,Option.bind_eq_bind,Option.bind_some,htake,eof,
    List.isEmpty_nil,if_true,hash_hashBytes]
  rfl

theorem parseDataInput_data (msg : CoinbaseMessage) :
    parseDataInput msg.data = some ([],msg) := by
  cases msg with
  | m1ProposeSidechain s description => rfl
  | m2AckSidechain s dh => exact parseSlotHashInput_body .m2AckSidechain s dh
  | m3ProposeBundle s m6id => exact parseSlotHashInput_body .m3ProposeBundle s m6id
  | m4AckBundles m4 =>
    have hbody := M4AckBundles.parseInput_body m4
    show (M4AckBundles.parseInput (m4.versionTag::m4.upvoteBytes)).map _ = _
    rw [hbody]
    rfl
  | m7BmmAccept s commitment => exact parseSlotHashInput_body .m7BmmAccept s commitment

theorem parse_eq [Bitcoin] (script : Script) : parse script = (parseInput script).map Prod.snd := by
  by_cases hl : ∃ code data, instructions script = [some (.op code),some (.pushBytes data)]
  · obtain ⟨code,data,hl⟩ := hl
    by_cases hc : code = opReturn
    · simp only [parse,parseInput,hl,hc,if_true,parseData_eq]
    · simp only [parse,parseInput,hl,hc,if_false,Option.map_none]
  · have hparse : parse script = none := by
      unfold parse
      split
      · rename_i code data hi
        exact absurd ⟨code,data,hi⟩ hl
      · rfl
    have hinput : parseInput script = none := by
      unfold parseInput
      split
      · rename_i code data hi
        exact absurd ⟨code,data,hi⟩ hl
      · rfl
    rw [hparse,hinput]
    rfl

/-- A message is read back from the script that it is written as, with nothing left over.
So different messages have different scripts. -/
theorem parse_tryIntoScript [Bitcoin] (hpush : ∀ data : List UInt8, data.length < 2^32 →
      instructions (newOpReturn data) = [some (.op opReturn),some (.pushBytes data)])
    (msg : CoinbaseMessage) (script : Script) (hs : msg.tryIntoScript = .ok script) :
    parseInput script = some ([],msg) ∧ parse script = some msg ∧
      ∀ msg' : CoinbaseMessage, msg'.tryIntoScript = .ok script → msg' = msg := by
  have hread : ∀ msg : CoinbaseMessage, msg.tryIntoScript = .ok script →
      parseInput script = some ([],msg) := by
    intro msg hs
    unfold tryIntoScript pushBytes at hs
    split at hs
    · rename_i hlen
      obtain rfl := Except.ok.inj hs
      simp only [parseInput,hpush _ hlen,if_true,parseDataInput_data]
    · cases hs
  refine ⟨hread msg hs,?_,?_⟩
  · rw [parse_eq,hread msg hs]
    rfl
  · intro msg' hs'
    have heq := (hread msg' hs').symm.trans (hread msg hs)
    exact (Prod.mk.inj (Option.some.inj heq)).2

end CoinbaseMessage

end RoundTrip

section Sample

open Sample

theorem parse_tryIntoScript_sample :
    ∃ script, (CoinbaseMessage.m1ProposeSidechain 7 (List.replicate 300 1)).tryIntoScript =
        .ok script ∧ script.length = 309 ∧
      CoinbaseMessage.parse script = some (.m1ProposeSidechain 7 (List.replicate 300 1)) := by
  obtain ⟨script,hs⟩ : ∃ script,
      (CoinbaseMessage.m1ProposeSidechain 7 (List.replicate 300 1)).tryIntoScript = .ok script :=
    Fallible.exists_of_isOk (by decide +kernel)
  have hlen : (CoinbaseMessage.m1ProposeSidechain 7 (List.replicate 300 1)).tryIntoScript.map
      List.length = .ok 309 := by decide +kernel
  rw [hs] at hlen
  exact ⟨script,hs,Except.ok.inj hlen,(CoinbaseMessage.parse_tryIntoScript
    (fun _ hdata => Script.instructions_newOpReturn_all hdata) _ script hs).2.1⟩

end Sample

end Bip300301Enforcer
