import Bip300301Enforcer.Mining
import Mathlib.Algebra.BigOperators.Intervals
import Mathlib.Algebra.Order.BigOperators.Group.Finset

/-! What mining does over a run of blocks: the times that they get, and the rewards that they
pay. -/
namespace Bip300301Enforcer
open Lib Mining

section Times

variable {challenge : Option Script}

def catchUpInterval : Option Script → ℕ
  | some challenge => targetBlockInterval challenge
  | none => 0

/-- The time of the last of some blocks, each mined at a time of the clock and with a `mintime`
of its template. -/
def minedTime (challenge : Option Script) (tipTime : UInt32) (l : List (ℕ × ℕ)) : UInt32 :=
  l.foldl (fun t e => blockTime challenge t e.1 e.2) tipTime

theorem minedTime_snoc (challenge : Option Script) (tipTime : UInt32) (l : List (ℕ × ℕ))
    (e : ℕ × ℕ) : minedTime challenge tipTime (l++[e]) =
      blockTime challenge (minedTime challenge tipTime l) e.1 e.2 := by
  simp [minedTime]

theorem targetBlockInterval_pos (challenge : Script) : 0 < targetBlockInterval challenge := by
  unfold targetBlockInterval
  split_ifs <;> decide

theorem lt_blockTimeSecs (challenge : Option Script) (tipTime now mintime : ℕ) :
    tipTime < blockTimeSecs challenge tipTime now mintime ∧
      mintime ≤ blockTimeSecs challenge tipTime now mintime := by
  cases challenge with
  | none => simp only [blockTimeSecs]; omega
  | some challenge =>
    have hpos := targetBlockInterval_pos challenge
    simp only [blockTimeSecs,signetBlockTime]
    split_ifs <;> omega

theorem blockTimeSecs_le (challenge : Option Script) (tipTime now mintime : ℕ) :
    blockTimeSecs challenge tipTime now mintime ≤ max (max now mintime) (tipTime+1) := by
  cases challenge with
  | none => simp only [blockTimeSecs]; omega
  | some challenge =>
    simp only [blockTimeSecs,signetBlockTime]
    split_ifs <;> omega

theorem blockTimeSecs_catchUp (challenge : Option Script) {start tipTime now : ℕ} (mintime : ℕ)
    (h : start ≤ now) :
    start-(blockTimeSecs challenge tipTime now mintime+catchUpInterval challenge) ≤
      (start-(tipTime+catchUpInterval challenge))/2 := by
  cases challenge with
  | none => simp only [blockTimeSecs,catchUpInterval]; omega
  | some challenge =>
    have hpos := targetBlockInterval_pos challenge
    simp only [blockTimeSecs,signetBlockTime,catchUpInterval]
    split_ifs <;> omega

theorem toNat_blockTime {tipTime : UInt32} {now mintime last : ℕ} (hnow : now ≤ last)
    (hmin : mintime ≤ last) (htip : tipTime.toNat+1 < 2^32) (hlast : last < 2^32) :
    (blockTime challenge tipTime now mintime).toNat =
      blockTimeSecs challenge tipTime.toNat now mintime := by
  have hle := blockTimeSecs_le challenge tipTime.toNat now mintime
  rw [blockTime,UInt32.toNat_ofNat',Nat.mod_eq_of_lt (by omega)]

/-- The times of mined blocks grow, and keep to the `mintime` of their templates. They run ahead
of the clock by a second a block at most. Blocks mined after `start` bring the chain within the
interval of `start`, and each of them halves what is missing. -/
theorem mined_times (challenge : Option Script) (tipTime : UInt32) (l : List (ℕ × ℕ))
    (start last : ℕ) (hstart : ∀ e ∈ l, start ≤ e.1) (hlast : ∀ e ∈ l, e.1 ≤ last ∧ e.2 ≤ last)
    (hfit : max last tipTime.toNat+l.length < 2^32) :
    tipTime.toNat+l.length ≤ (minedTime challenge tipTime l).toNat ∧
      (∀ e ∈ l, e.2 ≤ (minedTime challenge tipTime l).toNat) ∧
      (minedTime challenge tipTime l).toNat ≤ max last tipTime.toNat+l.length ∧
      start ≤ (minedTime challenge tipTime l).toNat+catchUpInterval challenge+
        (start-tipTime.toNat)/2^l.length := by
  induction l using List.reverseRecOn with
  | nil => simp [minedTime]; omega
  | append_singleton l e ih =>
    have hlen : (l++[e]).length = l.length+1 := by simp
    rw [hlen] at hfit
    obtain ⟨hgrow,hmins,hle,hcatch⟩ := ih
      (fun e he => hstart e (List.mem_append_left _ he))
      (fun e he => hlast e (List.mem_append_left _ he)) (by omega)
    have he : e ∈ l++[e] := by simp
    obtain ⟨hnow,hmin⟩ := hlast e he
    have htime : (minedTime challenge tipTime (l++[e])).toNat =
        blockTimeSecs challenge (minedTime challenge tipTime l).toNat e.1 e.2 := by
      rw [minedTime_snoc]
      exact toNat_blockTime hnow hmin (by omega) (by omega)
    have hlt := lt_blockTimeSecs challenge (minedTime challenge tipTime l).toNat e.1 e.2
    have hupper := blockTimeSecs_le challenge (minedTime challenge tipTime l).toNat e.1 e.2
    have hhalf : start-((minedTime challenge tipTime (l++[e])).toNat+catchUpInterval challenge) ≤
        (start-((minedTime challenge tipTime l).toNat+catchUpInterval challenge))/2 := by
      rw [htime]
      exact blockTimeSecs_catchUp challenge e.2 (hstart e he)
    have hpow : (start-tipTime.toNat)/2^(l.length+1) = (start-tipTime.toNat)/2^l.length/2 := by
      rw [Nat.pow_succ,Nat.div_div_eq_div_mul]
    rw [← htime] at hlt hupper
    rw [hlen,hpow]
    refine ⟨by omega,?_,by omega,by omega⟩
    intro e' he'
    cases List.mem_append.mp he' with
    | inl hold => exact (hmins e' hold).trans hlt.1.le
    | inr hnew =>
      obtain rfl := List.mem_singleton.mp hnew
      exact hlt.2

theorem mined_times_sample :
    3600 ≤ (minedTime (some [0x51]) 0 [(3600,0),(3601,0),(3602,0)]).toNat+600+3600/2^3 :=
  (mined_times (some [0x51]) 0 [(3600,0),(3601,0),(3602,0)] 3600 3602 (by decide) (by decide)
    (by decide)).2.2.2

end Times

section Rewards

variable (network : Network)

def subsidy (height : ℕ) : ℕ := getBlockValue height 0 network

theorem getBlockValue_eq (height fees : ℕ) :
    getBlockValue height fees network = fees+subsidy network height := by
  unfold subsidy getBlockValue
  dsimp only
  split_ifs <;> simp

def halved (n : ℕ) : ℕ := if n ≥ 64 then 0 else 5000000000>>>n

theorem subsidy_eq (height : ℕ) :
    subsidy network height = halved (height/subsidyHalvingInterval network) := by
  unfold subsidy getBlockValue halved
  dsimp only
  split_ifs <;> simp

theorem subsidyHalvingInterval_pos : 0 < subsidyHalvingInterval network := by
  cases network <;> decide

theorem halved_eq_zero {n : ℕ} (h : 33 ≤ n) : halved n = 0 := by
  unfold halved
  split_ifs
  · rfl
  · rw [Nat.shiftRight_eq_div_pow]
    refine Nat.div_eq_of_lt ?_
    calc 5000000000 < 2^33 := by decide
      _ ≤ 2^n := Nat.pow_le_pow_right (by decide) h

theorem halved_pos {n : ℕ} (h : n < 33) : 0 < halved n := by
  have hall : ∀ n < 33, 0 < halved n := by decide
  exact hall n h

theorem sum_halved_le (n : ℕ) : ∑ i ∈ Finset.range n, halved i ≤ 9999999989 := by
  have hall : ∑ i ∈ Finset.range 33, halved i = 9999999989 := by decide +kernel
  rw [← hall]
  induction n with
  | zero => simp
  | succ n ih =>
    by_cases hn : n < 33
    · exact Finset.sum_le_sum_of_subset (Finset.range_mono hn)
    · rw [Finset.sum_range_succ,halved_eq_zero (Nat.le_of_not_lt hn)]
      exact ih

theorem sum_subsidy_periods (n : ℕ) :
    ∑ height ∈ Finset.range (subsidyHalvingInterval network*n), subsidy network height =
      subsidyHalvingInterval network*∑ i ∈ Finset.range n, halved i := by
  have hpos := subsidyHalvingInterval_pos network
  induction n with
  | zero => simp
  | succ n ih =>
    have hperiod : ∀ i ∈ Finset.range (subsidyHalvingInterval network),
        subsidy network (subsidyHalvingInterval network*n+i) = halved n := by
      intro i hi
      rw [subsidy_eq,Nat.mul_add_div hpos,Nat.div_eq_of_lt (Finset.mem_range.mp hi),Nat.add_zero]
    rw [Nat.mul_succ,Finset.sum_range_add,ih,Finset.sum_congr rfl hperiod,Finset.sum_const,
      Finset.card_range,nsmul_eq_mul,Finset.sum_range_succ,Nat.mul_add]
    rfl

theorem sum_subsidy_le (n : ℕ) :
    ∑ height ∈ Finset.range n, subsidy network height ≤ subsidyHalvingInterval network*9999999989 := by
  have hpos := subsidyHalvingInterval_pos network
  calc _ ≤ ∑ height ∈ Finset.range (subsidyHalvingInterval network*n), subsidy network height :=
        Finset.sum_le_sum_of_subset (Finset.range_mono (Nat.le_mul_of_pos_left n hpos))
    _ = _ := sum_subsidy_periods network n
    _ ≤ _ := Nat.mul_le_mul_left _ (sum_halved_le n)

/-- A chain of mined blocks pays its fees and a subsidy that never exceeds the limit of the
network, and that reaches it with the thirty-third halving and not before. -/
theorem mined_rewards (fees : ℕ → ℕ) (n : ℕ) :
    ∃ total, ∑ height ∈ Finset.range n, getBlockValue height (fees height) network =
        ∑ height ∈ Finset.range n, fees height+total ∧
      total ≤ subsidyHalvingInterval network*9999999989 ∧
      (total = subsidyHalvingInterval network*9999999989 ↔ subsidyHalvingInterval network*33 ≤ n) := by
  have hpos := subsidyHalvingInterval_pos network
  have hlimit : ∑ height ∈ Finset.range (subsidyHalvingInterval network*33),
      subsidy network height = subsidyHalvingInterval network*9999999989 := by
    have hall : ∑ i ∈ Finset.range 33, halved i = 9999999989 := by decide +kernel
    rw [sum_subsidy_periods,hall]
  refine ⟨∑ height ∈ Finset.range n, subsidy network height,?_,sum_subsidy_le network n,?_⟩
  · simp only [getBlockValue_eq,Finset.sum_add_distrib]
  constructor
  · intro htotal
    by_contra hlt
    rw [Nat.not_le] at hlt
    have hsub : 0 < subsidy network n := by
      rw [subsidy_eq]
      exact halved_pos (Nat.div_lt_of_lt_mul hlt)
    have hmono : ∑ height ∈ Finset.range (n+1), subsidy network height ≤
        ∑ height ∈ Finset.range (subsidyHalvingInterval network*33), subsidy network height :=
      Finset.sum_le_sum_of_subset (Finset.range_mono hlt)
    rw [Finset.sum_range_succ,hlimit] at hmono
    omega
  · intro hn
    refine (sum_subsidy_le network n).antisymm ?_
    rw [← hlimit]
    exact Finset.sum_le_sum_of_subset (Finset.range_mono hn)

end Rewards

end Bip300301Enforcer
