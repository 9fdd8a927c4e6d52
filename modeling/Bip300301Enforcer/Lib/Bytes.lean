import Mathlib.Algebra.Ring.Nat

/-! Numbers as bytes, least significant first. -/
namespace Lib

namespace Bytes

def leNat (bytes : List UInt8) : ℕ := bytes.foldr (fun b n => b.toNat+256*n) 0

def leBytes (width n : ℕ) : List UInt8 := (List.range width).map (fun i => UInt8.ofNat (n/256^i))

@[simp] theorem length_leBytes (width n : ℕ) : (leBytes width n).length = width := by
  simp [leBytes]

theorem leBytes_succ (width n : ℕ) :
    leBytes (width+1) n = UInt8.ofNat n::leBytes width (n/256) := by
  simp only [leBytes,List.range_succ_eq_map,List.map_cons,List.map_map,Nat.pow_zero,Nat.div_one]
  congr 1
  refine List.map_congr_left (fun i _ => ?_)
  rw [Function.comp_apply,Nat.succ_eq_add_one,Nat.pow_succ',Nat.div_div_eq_div_mul]

theorem leNat_leBytes (width n : ℕ) : leNat (leBytes width n) = n%256^width := by
  induction width generalizing n with
  | zero => simp [leNat,leBytes,Nat.mod_one]
  | succ width ih =>
    have hcons : leNat (leBytes (width+1) n) =
        (UInt8.ofNat n).toNat+256*leNat (leBytes width (n/256)) := by
      rw [leBytes_succ]
      rfl
    have hpow : 256^(width+1) = 256*256^width := Nat.pow_succ'
    rw [hcons,ih,UInt8.toNat_ofNat',hpow,Nat.mod_mul]

theorem leNat_leBytes_of_lt {width n : ℕ} (h : n < 256^width) : leNat (leBytes width n) = n := by
  rw [leNat_leBytes,Nat.mod_eq_of_lt h]

theorem leNat_lt (bytes : List UInt8) : leNat bytes < 256^bytes.length := by
  induction bytes with
  | nil => decide
  | cons b bytes ih =>
    have hcons : leNat (b::bytes) = b.toNat+256*leNat bytes := rfl
    have hb := b.toNat_lt
    rw [hcons,List.length_cons,Nat.pow_succ']
    omega

theorem leBytes_leNat (bytes : List UInt8) : leBytes bytes.length (leNat bytes) = bytes := by
  induction bytes with
  | nil => rfl
  | cons b bytes ih =>
    have hb := b.toNat_lt
    have hcons : leNat (b::bytes) = b.toNat+256*leNat bytes := rfl
    have hlow : UInt8.ofNat (b.toNat+256*leNat bytes) = b := by
      apply UInt8.toNat_inj.mp
      rw [UInt8.toNat_ofNat']
      omega
    have hhigh : (b.toNat+256*leNat bytes)/256 = leNat bytes := by omega
    rw [List.length_cons,leBytes_succ,hcons,hlow,hhigh,ih]

end Bytes

end Lib
