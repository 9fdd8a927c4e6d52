import Bip300301Enforcer.SyncHeaders
import Bip300301Enforcer.Lib.ParallelSearch

/-! Grinding the proof-of-work of a block on every core. The threads hash from the midstate
of the first 64 bytes, look at a shared flag every so often, and race to write the nonce. -/
namespace Bip300301Enforcer
open Lib Bytes

/-- SHA-256, whose engine takes its input in pieces, and the target of compact bits. A digest
is a number, least significant byte first. -/
class Sha256 where
  Engine : Type
  engine : Engine
  input : Engine → List UInt8 → Engine
  fromEngine : Engine → BitVec 256
  target : UInt32 → BitVec 256
  input_append (e : Engine) (l l' : List UInt8) : input (input e l) l' = input e (l++l')

namespace Sha256

variable [Sha256]

def sha256 (bytes : List UInt8) : BitVec 256 := fromEngine (input engine bytes)

def asByteArray (digest : BitVec 256) : List UInt8 := leBytes 32 digest.toNat

end Sha256

namespace Header
open Sha256

variable [Sha256]

def MeetsTarget (hd : Header) : Prop :=
  (sha256 (asByteArray (sha256 hd.serialize))).toNat ≤ (target hd.bits).toNat

instance (hd : Header) : Decidable hd.MeetsTarget := inferInstanceAs (Decidable (_ ≤ _))

/-- The test of the hot loop. -/
def grindTest (hd : Header) (candidate : UInt32) : Bool :=
  let midstateEngine := input engine (hd.serialize.take 64)
  let tail := (hd.serialize.drop 64).take 12++leBytes 4 candidate.toNat
  let digest := sha256 (asByteArray (fromEngine (input midstateEngine tail)))
  -- the cheap reject on the most significant byte
  (asByteArray digest).getD 31 0 ≤ (asByteArray (target hd.bits)).getD 31 0 &&
    decide (digest.toNat ≤ (target hd.bits).toNat)

omit [Sha256] in
theorem serialize_nonce (hd : Header) (nonce : UInt32) :
    { hd with nonce }.serialize =
      hd.serialize.take 64++((hd.serialize.drop 64).take 12++leBytes 4 nonce.toNat) := by
  have hlen : (leBytes 4 hd.version.toNat++leBytes 32 hd.prevBlockhash.toNat++
      leBytes 32 hd.merkleRoot.toNat++leBytes 4 hd.time.toNat++leBytes 4 hd.bits.toNat).length =
        64+12 := by simp
  unfold serialize
  rw [← List.append_assoc (List.take 64 _),← List.take_add,List.take_append_of_le_length hlen.ge,
    List.take_of_length_le hlen.le]

omit [Sha256] in
theorem asByteArray_getD_le {a b : BitVec 256} (h : a.toNat ≤ b.toNat) :
    (asByteArray a).getD 31 0 ≤ (asByteArray b).getD 31 0 := by
  have hbyte : ∀ x : BitVec 256, ((asByteArray x).getD 31 0).toNat = x.toNat/256^31 := by
    intro x
    have hx : x.toNat/256^31 < 256 := by
      have hlt : x.toNat < 2^256 := x.isLt
      rw [Nat.div_lt_iff_lt_mul (by decide)]
      omega
    simp [asByteArray,leBytes]
    omega
  rw [UInt8.le_iff_toNat_le,hbyte,hbyte]
  exact Nat.div_le_div_right h

theorem grindTest_iff (hd : Header) (nonce : UInt32) :
    hd.grindTest nonce = true ↔ { hd with nonce }.MeetsTarget := by
  simp only [grindTest,MeetsTarget,sha256,input_append,← serialize_nonce,Bool.and_eq_true,
    decide_eq_true_eq]
  exact ⟨And.right,fun h => ⟨asByteArray_getD_le h,h⟩⟩

end Header

/-- `candidate.checked_add(threads)`. -/
def nextCandidate (a b : UInt32) : Option UInt32 :=
  if a.toNat+b.toNat < 2^32 then some (a+b) else none

theorem nextCandidate_some {a b c : UInt32} :
    nextCandidate a b = some c ↔ c.toNat = a.toNat+b.toNat := by
  unfold nextCandidate
  have hadd : (a+b).toNat = (a.toNat+b.toNat)%2^32 := UInt32.toNat_add a b
  have hc := c.toNat_lt
  split_ifs with hlt
  · rw [Nat.mod_eq_of_lt hlt] at hadd
    rw [Option.some_inj,← UInt32.toNat_inj,hadd,eq_comm]
  · simp only [false_iff]
    omega

section Grind

variable [Sha256]

/-- The threads of `grind`. Each starts at its own number, and the nonce starts as
`u64::MAX`, which no candidate is. -/
def grindSearch (hd : Header) (threads : UInt32) : Search (Fin threads.toNat) UInt32 UInt64 where
  first i := .ofNat i
  next candidate := nextCandidate candidate threads
  meets := hd.grindTest
  batch := 4096
  empty := 0xFFFFFFFFFFFFFFFF
  put candidate := candidate.toUInt64

/-- What `grind` returns once the threads are joined. -/
def grindResult (hd : Header) (nonce : UInt64) : Option Header :=
  if nonce = 0xFFFFFFFFFFFFFFFF then none else some { hd with nonce := nonce.toUInt32 }

variable {hd : Header} {threads : UInt32}

omit [Sha256] in
theorem grindResult_nonce {nonce : UInt64} {hd' : Header} (h : grindResult hd nonce = some hd') :
    hd' = { hd with nonce := hd'.nonce } := by
  unfold grindResult at h
  split_ifs at h
  rw [← Option.some.inj h]

theorem put_ne_empty (hd : Header) (threads candidate : UInt32) :
    (grindSearch hd threads).put candidate ≠ 0xFFFFFFFFFFFFFFFF := by
  intro he
  have hnat := congrArg UInt64.toNat he
  have hlt := candidate.toNat_lt
  simp [grindSearch] at hnat
  omega

/-- Each nonce belongs to one of the threads. -/
theorem tries_of_threads (hd : Header) {threads : UInt32} (ht : 0 < threads) (nonce : UInt32) :
    ∃ i, (grindSearch hd threads).Tries ((grindSearch hd threads).first i) nonce := by
  have hpos : 0 < threads.toNat := UInt32.lt_iff_toNat_lt.mp ht
  let first := nonce.toNat%threads.toNat
  have hstripe : ∀ k, first+k*threads.toNat ≤ nonce.toNat →
      (grindSearch hd threads).Tries (.ofNat first) (.ofNat (first+k*threads.toNat)) := by
    intro k
    induction k with
    | zero =>
      intro _
      rw [Nat.zero_mul,Nat.add_zero]
      exact Relation.ReflTransGen.refl
    | succ k ih =>
      intro hle
      have hk : (k+1)*threads.toNat = k*threads.toNat+threads.toNat := Nat.succ_mul _ _
      have hlt := nonce.toNat_lt
      refine (ih (by omega)).tail ?_
      change nextCandidate _ threads = some _
      rw [nextCandidate_some,UInt32.toNat_ofNat',UInt32.toNat_ofNat',Nat.mod_eq_of_lt (by omega),
        Nat.mod_eq_of_lt (by omega)]
      omega
  have hnonce : first+nonce.toNat/threads.toNat*threads.toNat = nonce.toNat := by
    rw [Nat.mul_comm]
    exact Nat.mod_add_div _ _
  refine ⟨⟨first,Nat.mod_lt _ hpos⟩,?_⟩
  have hlast := hstripe (nonce.toNat/threads.toNat) hnonce.le
  rw [hnonce,UInt32.ofNat_toNat] at hlast
  exact hlast

theorem grindSearch_next (ht : 0 < threads) {a b : UInt32}
    (h : (grindSearch hd threads).next a = some b) : 2^32-1-b.toNat < 2^32-1-a.toNat := by
  have hpos : 0 < threads.toNat := UInt32.lt_iff_toNat_lt.mp ht
  have hb := nextCandidate_some.mp h
  have hlt := b.toNat_lt
  omega

theorem grindSearch_steps_le (ht : 0 < threads) {n : ℕ}
    {s : Search.State (Fin threads.toNat) UInt32 UInt64}
    (h : (grindSearch hd threads).Reach n s) : n ≤ threads.toNat*(3*2^32+1) := by
  have hle := h.steps_le (show 0 < 4096 by decide) (fun _ _ hab => grindSearch_next ht hab)
  have hsum : ∑ i, (3*(2^32-1-((grindSearch hd threads).first i).toNat)+4) ≤
      ∑ _i : Fin threads.toNat, (3*2^32+1) :=
    Finset.sum_le_sum (fun i _ => by omega)
  have hconst : ∑ _i : Fin threads.toNat, (3*2^32+1) = threads.toNat*(3*2^32+1) := by simp
  omega

theorem grindResult_finished (hd : Header) (ht : 0 < threads) {n : ℕ}
    {s : Search.State (Fin threads.toNat) UInt32 UInt64}
    (h : (grindSearch hd threads).Reach n s) (hfin : s.Finished) :
    (grindResult hd s.cell = none ∧ ∀ nonce, ¬{ hd with nonce }.MeetsTarget) ∨
      ∃ nonce, grindResult hd s.cell = some { hd with nonce } ∧ { hd with nonce }.MeetsTarget := by
  cases h.finished hfin with
  | inl hnone =>
    obtain ⟨hcell,hall⟩ := hnone
    have hempty : s.cell = 0xFFFFFFFFFFFFFFFF := hcell
    refine .inl ⟨by simp [grindResult,hempty],fun nonce => ?_⟩
    obtain ⟨i,hi⟩ := tries_of_threads hd ht nonce
    have hm := hall i nonce hi
    rw [← Header.grindTest_iff,Bool.not_eq_true]
    exact hm
  | inr hsome =>
    obtain ⟨i,nonce,-,hm,hcell⟩ := hsome
    refine .inr ⟨nonce,?_,(Header.grindTest_iff hd nonce).mp hm⟩
    have hne := put_ne_empty hd threads nonce
    rw [← hcell] at hne
    have hback : s.cell.toUInt32 = nonce := by
      rw [hcell]
      simp [grindSearch]
    simp [grindResult,hne,hback]

/-- In whatever order the threads run and however late they see the flag, grinding ends. It
then returns the header with a nonce that meets the target, or none when no nonce does. -/
theorem grind_meets_target (hd : Header) {threads : UInt32} (ht : 0 < threads) {n : ℕ}
    {s : Search.State (Fin threads.toNat) UInt32 UInt64}
    (h : (grindSearch hd threads).Reach n s) :
    n ≤ threads.toNat*(3*2^32+1) ∧
      (s.Finished →
        (grindResult hd s.cell = none ↔ ∀ nonce, ¬{ hd with nonce }.MeetsTarget) ∧
        ∀ hd', grindResult hd s.cell = some hd' →
          hd'.MeetsTarget ∧ hd' = { hd with nonce := hd'.nonce }) := by
  refine ⟨grindSearch_steps_le ht h,fun hfin => ?_⟩
  cases grindResult_finished hd ht h hfin with
  | inl hnone =>
    obtain ⟨hresult,hfail⟩ := hnone
    simpa [hresult] using hfail
  | inr hsome =>
    obtain ⟨nonce,hresult,hmeets⟩ := hsome
    rw [hresult]
    refine ⟨by simpa using ⟨nonce,hmeets⟩,fun hd' he => ?_⟩
    obtain rfl := Option.some.inj he
    exact ⟨hmeets,rfl⟩

/-- The cell is what the threads of `grind` leave in it for the header, in some order. -/
def LeftByThreads (threads : UInt32) (hd : Header) (cell : UInt64) : Prop :=
  ∃ n s, (grindSearch hd threads).Reach n s ∧ s.Finished ∧ s.cell = cell

theorem LeftByThreads.meets {cell : UInt64} {hd' : Header} (h : LeftByThreads threads hd cell)
    (ht : 0 < threads) (hresult : grindResult hd cell = some hd') : hd'.MeetsTarget := by
  obtain ⟨n,s,hs,hfin,rfl⟩ := h
  cases grindResult_finished hd ht hs hfin with
  | inl hnone => simp [hnone.1] at hresult
  | inr hsome =>
    obtain ⟨nonce,hsome,hmeets⟩ := hsome
    rw [hsome] at hresult
    obtain rfl := Option.some.inj hresult
    exact hmeets

end Grind

namespace GrindSample

instance : Sha256 where
  Engine := List UInt8
  engine := []
  input e l := e++l
  fromEngine l := .ofNat 256 (if l.length = 80 then (l.getD 76 0).toNat else 3-(l.getD 0 0).toNat)
  target bits := .ofNat 256 bits.toNat
  input_append e l l' := by simp

def header : Header := ⟨0x20000000,5,6,7,2,0⟩

def grind : Search (Fin (2 : UInt32).toNat) UInt32 UInt64 := grindSearch header 2

def even : Fin (2 : UInt32).toNat := ⟨0,by decide⟩

def odd : Fin (2 : UInt32).toNat := ⟨1,by decide⟩

def last : Search.State (Fin (2 : UInt32).toNat) UInt32 UInt64 :=
  let s := ((grind.start.step grind even false).step grind even false).step grind even false
  ((s.step grind odd true).step grind odd false).step grind even false

theorem reach_last : grind.Reach 6 last := by
  have h₁ := (Search.Reach.start (g := grind)).step even false (by decide +kernel)
  have h₂ := (h₁.step even false (by decide +kernel)).step even false (by decide +kernel)
  have h₃ := (h₂.step odd true (by decide +kernel)).step odd false (by decide +kernel)
  exact h₃.step even false (by decide +kernel)

theorem grind_meets_target_sample :
    last.Finished ∧ grindResult header last.cell = some { header with nonce := 2 } ∧
      { header with nonce := 2 }.MeetsTarget := by
  have hfin : last.Finished := by
    have hall : ∀ i : Fin 2, last.thread i = .done := by decide +kernel
    exact hall
  have hresult : grindResult header last.cell = some { header with nonce := 2 } := by
    decide +kernel
  have hmeets := grind_meets_target header (by decide : (0 : UInt32) < 2) reach_last
  exact ⟨hfin,hresult,((hmeets.2 hfin).2 _ hresult).1⟩

end GrindSample

end Bip300301Enforcer
