import Mathlib.Data.Nat.Basic
import Mathlib.Tactic.Common

/-! Numbers of any size in base 128, most significant digit first. The top bit of a byte says
that more follow, and every byte that is followed counts one more, so that a number has a
single encoding. -/
namespace Lib

namespace VarInt

/-- The bytes before the last one, for the number that they stand for. -/
def high : ℕ → List UInt8
  | 0 => []
  | n+1 => high (n/128)++[UInt8.ofNat (n%128+128)]
decreasing_by exact Nat.lt_succ_of_le (Nat.div_le_self n 128)

def encode (n : ℕ) : List UInt8 := high (n/128)++[UInt8.ofNat (n%128)]

/-- The number at the start of a text, when the bytes before it stand for `n`. -/
def value : ℕ → List UInt8 → Option (ℕ × List UInt8)
  | _, [] => none
  | n, b::rest =>
    if b.toNat < 128 then some (128*n+b.toNat,rest) else value (128*n+(b.toNat-128)+1) rest

@[simp] theorem high_zero : high 0 = [] := by
  unfold high
  rfl

theorem high_succ (n : ℕ) : high (n+1) = high (n/128)++[UInt8.ofNat (n%128+128)] := by
  rw [high]

theorem value_high (n : ℕ) (rest : List UInt8) : value 0 (high n++rest) = value n rest := by
  induction n using Nat.strongRecOn generalizing rest with
  | ind n ih =>
    cases n with
    | zero => rw [high_zero,List.nil_append]
    | succ n =>
      have hbyte : (UInt8.ofNat (n%128+128)).toNat = n%128+128 := by
        rw [UInt8.toNat_ofNat']
        omega
      have hdigits : 128*(n/128)+(n%128+128-128)+1 = n+1 := by omega
      rw [high_succ,List.append_assoc,ih (n/128) (by omega)]
      show value (n/128) (UInt8.ofNat (n%128+128)::rest) = value (n+1) rest
      rw [value,hbyte,if_neg (by omega),hdigits]

theorem value_encode (n : ℕ) (rest : List UInt8) : value 0 (encode n++rest) = some (n,rest) := by
  have hbyte : (UInt8.ofNat (n%128)).toNat = n%128 := by
    rw [UInt8.toNat_ofNat']
    omega
  rw [encode,List.append_assoc,value_high]
  show value (n/128) (UInt8.ofNat (n%128)::rest) = some (n,rest)
  rw [value,hbyte,if_pos (by omega),Nat.div_add_mod]

theorem encode_of_value_from {n v : ℕ} {bytes rest : List UInt8}
    (h : value n bytes = some (v,rest)) : high n++bytes = encode v++rest := by
  induction bytes generalizing n with
  | nil => simp [value] at h
  | cons b bytes ih =>
    have hlt := b.toNat_lt
    rw [value] at h
    split at h
    · obtain ⟨rfl,rfl⟩ : 128*n+b.toNat = v ∧ bytes = rest := by simpa using h
      have hdiv : (128*n+b.toNat)/128 = n := by omega
      have hmod : (128*n+b.toNat)%128 = b.toNat := by omega
      rw [encode,hdiv,hmod,UInt8.ofNat_toNat,List.append_assoc,List.singleton_append]
    · have hdiv : (128*n+(b.toNat-128))/128 = n := by omega
      have hmod : (128*n+(b.toNat-128))%128+128 = b.toNat := by omega
      rw [← ih h,high_succ,hdiv,hmod,UInt8.ofNat_toNat,List.append_assoc,List.singleton_append]

theorem encode_of_value {v : ℕ} {bytes rest : List UInt8} (h : value 0 bytes = some (v,rest)) :
    bytes = encode v++rest := by
  simpa using encode_of_value_from h

theorem value_eq_none_iff {n : ℕ} {bytes : List UInt8} :
    value n bytes = none ↔ ∀ b ∈ bytes, 128 ≤ b.toNat := by
  induction bytes generalizing n with
  | nil => simp [value]
  | cons b bytes ih =>
    rw [value,List.forall_mem_cons]
    split
    · constructor
      · rintro ⟨⟩
      · rintro ⟨hb,-⟩
        omega
    · rw [ih]
      exact ⟨fun h => ⟨by omega,h⟩,And.right⟩

theorem le_of_value {n v : ℕ} {bytes rest : List UInt8} (h : value n bytes = some (v,rest)) :
    128*n ≤ v := by
  induction bytes generalizing n with
  | nil => simp [value] at h
  | cons b bytes ih =>
    rw [value] at h
    split at h
    · obtain ⟨rfl,-⟩ : 128*n+b.toNat = v ∧ bytes = rest := by simpa using h
      exact Nat.le_add_right ..
    · have := ih h
      omega

end VarInt
end Lib
