import Bip300301Enforcer.ProducedCoinbase

/-! The votes that a request for a coinbase asks for, one number for each active slot, and
what the validator reads in the `M4` that is made of them. -/
namespace Bip300301Enforcer
open Lib BlockHandler

structure InvalidRepeatedValue where
  fieldName : String
  value : UInt32
deriving DecidableEq

namespace M4AckBundles

/-- The loop over the requested values. Does one of them need two bytes? -/
def needTwoBytes : List UInt32 → Bool → Except InvalidRepeatedValue Bool
  | [], wide => .ok wide
  | upvote::vals, wide =>
    if upvote > 0xFFFF then .error ⟨"upvotes",upvote⟩
    else if upvote > 0xFF then needTwoBytes vals true
    else needTwoBytes vals wide

/-- `TryFrom<Upvotes>`. -/
def tryFromUpvotes (vals : List UInt32) : Except InvalidRepeatedValue M4AckBundles := do
  let wide ← needTwoBytes vals false
  return if wide then .twoBytes (vals.map UInt32.toUInt16)
    else .oneByte (vals.map UInt32.toUInt8)

/-- The vote that the validator reads for the slot at a position. -/
def voteAt (m4 : M4AckBundles) (i : ℕ) : Option WithdrawalBundleVote :=
  (readCodes m4).bind (fun codes => codes[i]?.map BlockProducer.readVote)

theorem needTwoBytes_ok {vals : List UInt32} {acc wide : Bool} :
    needTwoBytes vals acc = .ok wide ↔
      (∀ v ∈ vals, v.toNat ≤ 0xFFFF) ∧ wide = (acc || vals.any (fun v => v > 0xFF)) := by
  induction vals generalizing acc with
  | nil => simp [needTwoBytes,eq_comm]
  | cons v vals ih =>
    rw [needTwoBytes]
    split
    · rename_i hv
      have hlt : 0xFFFF < v.toNat := UInt32.lt_iff_toNat_lt.mp hv
      simp only [reduceCtorEq,List.forall_mem_cons,false_iff]
      rintro ⟨⟨hle,-⟩,-⟩
      omega
    · rename_i hv
      have hle : v.toNat ≤ 0xFFFF := UInt32.le_iff_toNat_le.mp (UInt32.not_lt.mp hv)
      split
      · rename_i hbig
        rw [ih,List.forall_mem_cons,List.any_cons,decide_eq_true hbig,Bool.true_or,Bool.or_true]
        tauto
      · rename_i hsmall
        rw [ih,List.forall_mem_cons,List.any_cons,decide_eq_false hsmall,Bool.false_or]
        tauto

theorem tryFromUpvotes_ok {vals : List UInt32} {m4 : M4AckBundles} :
    tryFromUpvotes vals = .ok m4 ↔ (∀ v ∈ vals, v.toNat ≤ 0xFFFF) ∧
      m4 = if vals.any (fun v => v > 0xFF) then .twoBytes (vals.map UInt32.toUInt16)
        else .oneByte (vals.map UInt32.toUInt8) := by
  unfold tryFromUpvotes
  simp only [Fallible.bind_ok,needTwoBytes_ok,Fallible.pure_ok,Bool.false_or]
  constructor
  · rintro ⟨_,⟨hle,rfl⟩,rfl⟩
    exact ⟨hle,rfl⟩
  · rintro ⟨hle,rfl⟩
    exact ⟨_,⟨hle,rfl⟩,rfl⟩

theorem widenVote_toUInt8 {v : UInt32} (hv : v.toNat ≤ 0xFF) :
    widenVote v.toUInt8 = if v = 255 then abstainTwoBytes else if v = 254 then alarmTwoBytes
      else v.toUInt16 := by
  have hbyte : v.toUInt8.toNat = v.toNat := by
    rw [UInt32.toNat_toUInt8]
    omega
  have hsentinel (n : UInt8) (w : UInt32) (hw : w.toNat = n.toNat) : v.toUInt8 = n ↔ v = w := by
    rw [← UInt8.toNat_inj,hbyte,← hw,UInt32.toNat_inj]
  have hwide : v.toUInt8.toUInt16 = v.toUInt16 := by
    apply UInt16.toNat_inj.mp
    rw [UInt8.toNat_toUInt16,hbyte,UInt32.toNat_toUInt16]
    omega
  simp only [widenVote,hwide,hsentinel abstainOneByte 255 rfl,hsentinel alarmOneByte 254 rfl]

section Request
variable {vals : List UInt32} {m4 : M4AckBundles} {i : ℕ} {v : UInt32}

theorem voteAt_of_ne (h : tryFromUpvotes vals = .ok m4) (hv : vals[i]? = some v) (h₁ : v ≠ 254)
    (h₂ : v ≠ 255) : m4.voteAt i = some (BlockProducer.readVote v.toUInt16) := by
  obtain ⟨-,rfl⟩ := tryFromUpvotes_ok.mp h
  split
  · simp [voteAt,readCodes,hv]
  · rename_i hany
    have hsmall : v.toNat ≤ 0xFF := by
      simp only [Bool.not_eq_true,List.any_eq_false,decide_eq_true_eq] at hany
      exact UInt32.le_iff_toNat_le.mp (UInt32.not_lt.mp (hany v (List.mem_of_getElem? hv)))
    simp [voteAt,readCodes,hv,widenVote_toUInt8 hsmall,h₁,h₂]

theorem voteAt_small (h : tryFromUpvotes vals = .ok m4) (hv : vals[i]? = some v)
    (hsmall : vals.any (fun v => v > 0xFF) = false) (hsentinel : v = 254 ∨ v = 255) :
    m4.voteAt i = some .alarm ∨ m4.voteAt i = some .abstain := by
  obtain ⟨-,rfl⟩ := tryFromUpvotes_ok.mp h
  rw [if_neg (by rw [hsmall]; decide)]
  rcases hsentinel with rfl | rfl
  · left
    simp [voteAt,readCodes,hv]
    rfl
  · right
    simp [voteAt,readCodes,hv]
    rfl

/-- A requested value keeps its meaning: the other values do not matter, and an index is no
alarm and no abstention. -/
def Kept (vals : List UInt32) (m4 : M4AckBundles) (i : ℕ) (v : UInt32) : Prop :=
  (∀ vals' m4', tryFromUpvotes vals' = .ok m4' → vals'.length = vals.length →
    vals'[i]? = some v → m4'.voteAt i = m4.voteAt i) ∧
  (v < 0xFFFE → m4.voteAt i ≠ some .alarm ∧ m4.voteAt i ≠ some .abstain)

theorem readVote_toUInt16 (hv : v < 0xFFFE) :
    BlockProducer.readVote v.toUInt16 = .upvote v.toUInt16 := by
  have hlt : v.toNat < 0xFFFE := UInt32.lt_iff_toNat_lt.mp hv
  have hwide : v.toUInt16.toNat = v.toNat := by
    rw [UInt32.toNat_toUInt16]
    omega
  have hfits : BlockProducer.IndexFits (.upvote v.toUInt16) := by
    rintro index ⟨⟩
    rw [hwide]
    exact hlt
  exact BlockProducer.readVote_twoByteVote hfits

theorem exists_small_request (hi : i < vals.length) (hsentinel : v = 254 ∨ v = 255) :
    ∃ vals' m4', tryFromUpvotes vals' = .ok m4' ∧ vals'.length = vals.length ∧
      vals'[i]? = some v ∧ vals'.any (fun v => v > 0xFF) = false := by
  have hmem (w : UInt32) (hw : w ∈ (List.replicate vals.length 0).set i v) : w.toNat ≤ 0xFF := by
    rcases List.mem_or_eq_of_mem_set hw with hw | rfl
    · rw [List.eq_of_mem_replicate hw]
      decide
    · rcases hsentinel with rfl | rfl <;> decide
  refine ⟨(List.replicate vals.length 0).set i v,_,
    tryFromUpvotes_ok.mpr ⟨fun w hw => (hmem w hw).trans (by decide),rfl⟩,by simp,by simp [hi],?_⟩
  rw [List.any_eq_false]
  intro w hw
  rw [decide_eq_true_eq]
  exact UInt32.not_lt.mpr (UInt32.le_iff_toNat_le.mpr (hmem w hw))

theorem kept_iff (h : tryFromUpvotes vals = .ok m4) (hv : vals[i]? = some v) :
    Kept vals m4 i v ↔ v ≠ 254 ∧ v ≠ 255 := by
  constructor
  · rintro ⟨hsame,hindex⟩
    by_contra hboth
    have hsentinel : v = 254 ∨ v = 255 := by tauto
    have hlt : v < 0xFFFE := by rcases hsentinel with rfl | rfl <;> decide
    obtain ⟨halarm,habstain⟩ := hindex hlt
    have hi : i < vals.length := (List.getElem?_eq_some_iff.mp hv).1
    obtain ⟨vals',m4',h',hlen,hv',hsmall⟩ := exists_small_request hi hsentinel
    rcases voteAt_small h' hv' hsmall hsentinel with hvote | hvote
    · exact halarm ((hsame vals' m4' h' hlen hv').symm.trans hvote)
    · exact habstain ((hsame vals' m4' h' hlen hv').symm.trans hvote)
  · rintro ⟨h₁,h₂⟩
    have hvote := voteAt_of_ne h hv h₁ h₂
    refine ⟨fun vals' m4' h' _ hv' => (voteAt_of_ne h' hv' h₁ h₂).trans hvote.symm,fun hlt => ?_⟩
    rw [hvote,readVote_toUInt16 hlt]
    exact ⟨by simp,by simp⟩

theorem handleM4AckBundles_tryFromUpvotes (h : tryFromUpvotes vals = .ok m4)
    (t : ConsensusDbs) (parent : BlockHash) (prevDiff : Option Diff.Block) :
    ∃ codes, readCodes m4 = some codes ∧ codes.length = vals.length ∧
      handleM4AckBundles t parent prevDiff m4 = handleM4Votes t codes := by
  obtain ⟨hle,rfl⟩ := tryFromUpvotes_ok.mp h
  split
  · rename_i hany
    refine ⟨_,rfl,by simp,?_⟩
    have hwide : ¬(vals.map UInt32.toUInt16).all (fun v => v ≤ 253) = true := by
      intro hall
      obtain ⟨v,hv,hlarge⟩ := List.any_eq_true.mp hany
      have hsmall := of_decide_eq_true (List.all_eq_true.mp hall _ (List.mem_map_of_mem hv))
      have hlt : 0xFF < v.toNat := UInt32.lt_iff_toNat_lt.mp (of_decide_eq_true hlarge)
      have hcode : v.toUInt16.toNat ≤ 253 := UInt16.le_iff_toNat_le.mp hsmall
      have := hle v hv
      rw [UInt32.toNat_toUInt16] at hcode
      omega
    rw [handleM4AckBundles,if_neg hwide]
  · exact ⟨_,rfl,by simp,rfl⟩

end Request

end M4AckBundles

open M4AckBundles

/-- A requested vote means the same whatever the other votes are, and an index stays an index,
exactly if its value is neither 254 nor 255. The validator always takes the width. -/
theorem requested_vote_kept_iff {vals : List UInt32} {m4 : M4AckBundles}
    (h : tryFromUpvotes vals = .ok m4) :
    (∀ i v, vals[i]? = some v → (Kept vals m4 i v ↔ v ≠ 254 ∧ v ≠ 255)) ∧
    ∀ t parent prevDiff, ∃ codes, readCodes m4 = some codes ∧ codes.length = vals.length ∧
      handleM4AckBundles t parent prevDiff m4 = handleM4Votes t codes :=
  ⟨fun _ _ => kept_iff h,handleM4AckBundles_tryFromUpvotes h⟩

theorem requested_vote_kept_iff_sample :
    Kept [3,300,0xFFFF] (.twoBytes [3,300,0xFFFF]) 0 3 :=
  ((requested_vote_kept_iff (show tryFromUpvotes [3,300,0xFFFF] = .ok (.twoBytes [3,300,0xFFFF]) by
    decide)).1 0 3 rfl).mpr (by decide)

/-- A request for bundle 254 is an alarm, and next to a request for bundle 300 it is an upvote
of bundle 254. -/
theorem request_254_changes :
    tryFromUpvotes [254,0] = .ok (.oneByte [254,0]) ∧
      voteAt (.oneByte [254,0]) 0 = some .alarm ∧
      tryFromUpvotes [254,300] = .ok (.twoBytes [254,300]) ∧
      voteAt (.twoBytes [254,300]) 0 = some (.upvote 254) := by
  decide

end Bip300301Enforcer
