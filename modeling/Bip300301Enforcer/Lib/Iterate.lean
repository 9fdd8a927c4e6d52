import Mathlib.Data.Set.Finite.Basic
import Mathlib.Data.Set.Finite.Lattice

/-! A step that is taken again and again until it ends. -/
namespace Lib

variable {σ ρ : Type}

/-- Where a step leads: on to another state, or to the end with a result. -/
inductive Progress (σ ρ : Type)
  | running (s : σ)
  | ended (s : σ) (result : ρ)

/-- At most `n` steps. -/
def iterate (step : σ → Progress σ ρ) : ℕ → σ → Progress σ ρ
  | 0, s => .running s
  | n+1, s =>
    match step s with
    | .running s' => iterate step n s'
    | .ended s' result => .ended s' result

def Ends (step : σ → Progress σ ρ) (s : σ) : Prop :=
  ∃ n s' result, iterate step n s = .ended s' result

section Iterate

variable {step : σ → Progress σ ρ} {s s' : σ} {result : ρ} {I G : σ → Prop} {n m : ℕ}

theorem iterate_add (hn : iterate step n s = .running s') :
    iterate step (n+m) s = iterate step m s' := by
  induction n generalizing s with
  | zero =>
    obtain rfl := Progress.running.inj hn
    rw [Nat.zero_add]
  | succ n ih =>
    rw [Nat.succ_add,iterate]
    rw [iterate] at hn
    cases hs : step s with
    | running s₁ =>
      rw [hs] at hn
      exact ih hn
    | ended s₁ result =>
      rw [hs] at hn
      cases hn

theorem iterate_after (hn : iterate step n s = .ended s' result) (hm : n ≤ m) :
    iterate step m s = .ended s' result := by
  induction n generalizing s m with
  | zero => cases hn
  | succ n ih =>
    cases m with
    | zero => exact absurd hm (Nat.not_succ_le_zero n)
    | succ m =>
      rw [iterate] at hn ⊢
      cases hs : step s with
      | running s₁ =>
        rw [hs] at hn
        exact ih hn (Nat.le_of_succ_le_succ hm)
      | ended s₁ result₁ =>
        rw [hs] at hn
        exact hn

theorem iterate_inv (hstep : ∀ s s', I s → step s = .running s' → I s') (hs : I s)
    (hn : iterate step n s = .running s') : I s' := by
  induction n generalizing s with
  | zero => exact Progress.running.inj hn ▸ hs
  | succ n ih =>
    rw [iterate] at hn
    cases h : step s with
    | running s₁ =>
      rw [h] at hn
      exact ih (hstep s s₁ hs h) hn
    | ended s₁ result =>
      rw [h] at hn
      cases hn

theorem not_ends (hstep : ∀ s, I s → ∃ s', step s = .running s' ∧ I s') (hs : I s) :
    ¬ Ends step s := by
  rintro ⟨n,s',result,hn⟩
  induction n generalizing s with
  | zero => cases hn
  | succ n ih =>
    obtain ⟨s₁,h,hs₁⟩ := hstep s hs
    rw [iterate,h] at hn
    exact ih hs₁ hn

theorem iterate_last (hn : iterate step n s = .ended s' result) :
    ∃ m s₁, iterate step m s = .running s₁ ∧ step s₁ = .ended s' result := by
  induction n generalizing s with
  | zero => cases hn
  | succ n ih =>
    rw [iterate] at hn
    cases h : step s with
    | running s₁ =>
      rw [h] at hn
      obtain ⟨m,s₂,hm,hlast⟩ := ih hn
      exact ⟨m+1,s₂,by rw [iterate,h]; exact hm,hlast⟩
    | ended s₁ result₁ =>
      rw [h] at hn
      cases hn
      exact ⟨0,s,rfl,h⟩

theorem ends_of_measure (μ : σ → ℕ) (hstep : ∀ s s', I s → step s = .running s' → I s')
    (hμ : ∀ s s', I s → G s → step s = .running s' → μ s' < μ s) (hs : I s)
    (hgood : ∀ n s', iterate step n s = .running s' → G s') : Ends step s := by
  induction hk : μ s using Nat.strong_induction_on generalizing s with
  | _ k ih =>
    cases h : step s with
    | ended s₁ result => exact ⟨1,s₁,result,by rw [iterate,h]⟩
    | running s₁ =>
      have hlt := hμ s s₁ hs (hgood 0 s rfl) h
      have hnext : ∀ n s', iterate step n s₁ = .running s' → G s' :=
        fun n s' hn => hgood (n+1) s' (by rw [iterate,h]; exact hn)
      obtain ⟨n,s',result,hn⟩ := ih (μ s₁) (hk ▸ hlt) (hstep s s₁ hs h) hnext rfl
      exact ⟨n+1,s',result,by rw [iterate,h]; exact hn⟩

def badSteps (step : σ → Progress σ ρ) (G : σ → Prop) (s : σ) : Set ℕ :=
  {n | ∃ s', iterate step n s = .running s' ∧ ¬ G s'}

theorem ends_iff_badSteps_finite (μ : σ → ℕ) (hstep : ∀ s s', I s → step s = .running s' → I s')
    (hμ : ∀ s s', I s → G s → step s = .running s' → μ s' < μ s) (hs : I s) :
    Ends step s ↔ (badSteps step G s).Finite := by
  constructor
  · rintro ⟨n,s',result,hn⟩
    refine (Set.finite_lt_nat n).subset ?_
    rintro m ⟨s₁,hm,-⟩
    by_contra hge
    rw [iterate_after hn (Nat.le_of_not_lt hge)] at hm
    cases hm
  · intro hfin
    obtain ⟨N,hN⟩ := hfin.bddAbove
    cases h : iterate step (N+1) s with
    | ended s' result => exact ⟨N+1,s',result,h⟩
    | running s₁ =>
      have hgood : ∀ n s', iterate step n s₁ = .running s' → G s' := by
        intro n s' hn
        by_contra hbad
        have hle := hN (a := N+1+n) ⟨s',by rw [iterate_add h]; exact hn,hbad⟩
        omega
      obtain ⟨n,s',result,hn⟩ := ends_of_measure μ hstep hμ (iterate_inv hstep hs h) hgood
      exact ⟨N+1+n,s',result,by rw [iterate_add h]; exact hn⟩

end Iterate

end Lib
