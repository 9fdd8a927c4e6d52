import Bip300301Enforcer.MessageEncoding
import Bip300301Enforcer.SyncStateSummary

/-! Sidechain declarations as the description of a proposal. The length of the title is one
byte, and the description takes what the other fields leave. -/
namespace Bip300301Enforcer
open Lib

namespace SidechainDeclaration

def utf8 (text : String) : List UInt8 := text.toByteArray.data.toList

def version : UInt8 := 0

/-- The description of a proposal. The length of the title is cut to one byte. -/
def encode (d : SidechainDeclaration) : List UInt8 :=
  version::UInt8.ofNat (utf8 d.title).length::
    (utf8 d.title++(utf8 d.description++(d.hashId1++d.hashId2)))

/-- The hashes are arrays of fixed length. -/
structure WellFormed (d : SidechainDeclaration) : Prop where
  hashId1 : d.hashId1.length = hashId1Length
  hashId2 : d.hashId2.length = hashId2Length

end SidechainDeclaration

/-- The output that proposes a sidechain, and its description. -/
def createSidechainProposal [Bitcoin] (sidechainNumber : SidechainNumber)
    (declaration : SidechainDeclaration) : Except PushBytesError (TxOut × List UInt8) := do
  let description := declaration.encode
  let scriptPubkey ← (CoinbaseMessage.m1ProposeSidechain sidechainNumber description).tryIntoScript
  return (⟨0,scriptPubkey⟩,description)

namespace SidechainDeclaration

@[simp] theorem fromUtf8_utf8 (text : String) : fromUtf8 (utf8 text) = some text := by
  unfold fromUtf8 utf8 String.fromUTF8?
  rw [Array.toArray_toList]
  exact dif_pos text.isValidUTF8

theorem utf8_append (a b : String) : utf8 (a++b) = utf8 a++utf8 b := by
  simp [utf8]

theorem utf8_of_fromUtf8 {bytes : List UInt8} {text : String} (h : fromUtf8 bytes = some text) :
    utf8 text = bytes := by
  unfold fromUtf8 String.fromUTF8? at h
  split at h
  · obtain rfl := Option.some.inj h
    rfl
  · cases h

theorem tryFrom_encode {d : SidechainDeclaration} (hd : d.WellFormed)
    (htitle : (utf8 d.title).length ≤ 255) : tryFrom d.encode = .ok d := by
  have hlen : (UInt8.ofNat (utf8 d.title).length).toNat = (utf8 d.title).length := by
    rw [UInt8.toNat_ofNat']
    omega
  have hhashes : (d.hashId1++d.hashId2).length = hashId1Length+hashId2Length := by
    rw [List.length_append,hd.hashId1,hd.hashId2]
  unfold encode tryFrom
  simp only [version,ne_eq,not_true_eq_false,if_false,hlen,List.take_left,List.drop_left,
    fromUtf8_utf8,Fallible.require_some,Fallible.ok_bind]
  have hrest : (utf8 d.description++(d.hashId1++d.hashId2)).length-(hashId1Length+hashId2Length) =
      (utf8 d.description).length := by
    rw [List.length_append,hhashes,Nat.add_sub_cancel]
  rw [hrest,List.take_left,List.drop_left,fromUtf8_utf8,← hd.hashId1,List.take_left,List.drop_left]
  simp [Fallible.ensure,hhashes,hd.hashId1]

/-- What is read as a declaration is its description, and its title is short. -/
theorem encode_of_tryFrom {bytes : List UInt8} {d : SidechainDeclaration}
    (h : tryFrom bytes = .ok d) : d.encode = bytes ∧ (utf8 d.title).length ≤ 255 := by
  unfold tryFrom at h
  split at h
  · cases h
  · rename_i v input
    split at h
    · cases h
    · rename_i hversion
      split at h
      · cases h
      · rename_i titleLength input
        simp only [Fallible.bind_ok,Fallible.ensure_ok,Fallible.require_ok,Fallible.pure_ok] at h
        obtain ⟨_,hlen,title,htitle,_,-,description,hdescription,rfl⟩ := h
        have hle : titleLength.toNat ≤ input.length := of_decide_eq_true hlen
        have hlt := titleLength.toNat_lt
        have hsize : (input.take titleLength.toNat).length = titleLength.toNat :=
          List.length_take_of_le hle
        have hv : v = version := not_not.mp hversion
        refine ⟨?_,?_⟩
        · simp only [encode,utf8_of_fromUtf8 htitle,utf8_of_fromUtf8 hdescription,
            List.take_append_drop,hsize,UInt8.ofNat_toNat,hv]
        · show (utf8 title).length ≤ 255
          rw [utf8_of_fromUtf8 htitle,hsize]
          omega

theorem tryFrom_encode_iff {d : SidechainDeclaration} (hd : d.WellFormed) :
    tryFrom d.encode = .ok d ↔ (utf8 d.title).length ≤ 255 :=
  ⟨fun h => (encode_of_tryFrom h).2,tryFrom_encode hd⟩

end SidechainDeclaration

open SidechainDeclaration

theorem createSidechainProposal_ok_iff [Bitcoin] {s : SidechainNumber} {d : SidechainDeclaration} :
    (∃ out, createSidechainProposal s d = .ok (out,d.encode)) ↔ d.encode.length+5 < 2^32 := by
  have hdata : (CoinbaseMessage.m1ProposeSidechain s d.encode).data.length = d.encode.length+5 := by
    simp only [CoinbaseMessage.data,CoinbaseMessage.m1Tag,List.length_append,List.length_cons,
      List.length_nil]
    omega
  unfold createSidechainProposal CoinbaseMessage.tryIntoScript pushBytes
  dsimp only
  rw [hdata]
  split
  · rename_i hlt
    exact ⟨fun _ => hlt,fun _ => ⟨_,rfl⟩⟩
  · rename_i hge
    exact ⟨nofun,fun h => absurd h hge⟩

theorem description_of_createSidechainProposal [Bitcoin] {s : SidechainNumber}
    {d : SidechainDeclaration} {out : TxOut} {description : List UInt8}
    (h : createSidechainProposal s d = .ok (out,description)) : description = d.encode := by
  unfold createSidechainProposal at h
  obtain ⟨_,-,hout⟩ := Fallible.bind_ok.mp h
  exact (Prod.mk.inj (Except.ok.inj hout)).2.symm

/-- A declaration survives its proposal exactly if its title takes at most 255 bytes, or if no
proposal is made. A description that is read is always the one its declaration is written as. -/
theorem sidechainDeclaration_read_back [Bitcoin] (s : SidechainNumber) (d : SidechainDeclaration)
    (hd : d.WellFormed) :
    ((∀ out description, createSidechainProposal s d = .ok (out,description) →
        SidechainDeclaration.tryFrom description = .ok d) ↔
      (utf8 d.title).length ≤ 255 ∨ 2^32 ≤ d.encode.length+5) ∧
    ∀ bytes d', SidechainDeclaration.tryFrom bytes = .ok d' → d'.encode = bytes := by
  refine ⟨?_,fun bytes d' h => (encode_of_tryFrom h).1⟩
  constructor
  · intro h
    by_cases hlen : d.encode.length+5 < 2^32
    · obtain ⟨out,hout⟩ := createSidechainProposal_ok_iff.mpr hlen
      exact .inl ((tryFrom_encode_iff hd).mp (h out d.encode hout))
    · exact .inr (Nat.le_of_not_lt hlen)
  · intro h out description hout
    obtain rfl := description_of_createSidechainProposal hout
    rcases h with htitle | hlen
    · exact tryFrom_encode hd htitle
    · have := createSidechainProposal_ok_iff.mp ⟨out,hout⟩
      omega

section Sample

open Sample

namespace DeclarationSample

def named (title description : String) : SidechainDeclaration :=
  ⟨title,description,List.replicate 32 1,List.replicate 20 2⟩

theorem named_wellFormed (title description : String) : (named title description).WellFormed :=
  ⟨List.length_replicate,List.length_replicate⟩

def longTitle : String := String.ofList (List.replicate 256 'a')

end DeclarationSample

open DeclarationSample

theorem sidechainDeclaration_read_back_sample :
    ∃ out description, createSidechainProposal 13 (named "title" "description") =
        .ok (out,description) ∧
      SidechainDeclaration.tryFrom description = .ok (named "title" "description") := by
  obtain ⟨out,hout⟩ := (createSidechainProposal_ok_iff (s := 13)
    (d := named "title" "description")).mpr (by decide +kernel)
  exact ⟨out,_,hout,(sidechainDeclaration_read_back 13 _ (named_wellFormed ..)).1.mpr
    (.inl (by decide +kernel)) out _ hout⟩

/-- A title of 256 bytes is read as an empty one and as the start of the description. -/
theorem long_title_moves :
    ∃ out description, createSidechainProposal 13 (named longTitle "rest") =
        .ok (out,description) ∧
      SidechainDeclaration.tryFrom description = .ok (named "" (longTitle++"rest")) ∧
      named "" (longTitle++"rest") ≠ named longTitle "rest" := by
  have hlen : (utf8 longTitle).length = 256 := by decide +kernel
  have hsame : (named longTitle "rest").encode = (named "" (longTitle++"rest")).encode := by
    have hempty : utf8 "" = [] := rfl
    have hbyte : UInt8.ofNat 256 = UInt8.ofNat 0 := rfl
    simp only [encode,named,hlen,utf8_append,hempty,List.append_assoc,List.length_nil,
      List.nil_append,hbyte]
  obtain ⟨out,hout⟩ := (createSidechainProposal_ok_iff (s := 13)
    (d := named longTitle "rest")).mpr (by decide +kernel)
  refine ⟨out,_,hout,?_,?_⟩
  · rw [hsame]
    exact tryFrom_encode (named_wellFormed ..) (by decide +kernel)
  · intro h
    have htitle := congrArg (fun d => (utf8 d.title).length) h
    rw [show (utf8 (named longTitle "rest").title).length = 256 from hlen] at htitle
    exact absurd htitle (by decide +kernel)

end Sample

end Bip300301Enforcer
