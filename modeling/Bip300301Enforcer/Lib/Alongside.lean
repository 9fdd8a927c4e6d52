import Bip300301Enforcer.Lib.Fallible

/-! Two computations side by side. Both fail, or both succeed with related results. -/
namespace Lib
namespace Fallible

variable {ε ε' α β σ τ : Type}

def Alongside (R : α → β → Prop) : Except ε α → Except ε' β → Prop
  | .ok a, .ok b => R a b
  | .error _, .error _ => True
  | _, _ => False

namespace Alongside

variable {R : α → β → Prop} {S : σ → τ → Prop}

theorem error (e : ε) (e' : ε') : Alongside R (.error e) (.error e') := trivial

theorem refl (x : Except ε α) : Alongside (fun a b => a = b) x x := by
  cases x with
  | error e => trivial
  | ok a => rfl

theorem bind {x : Except ε α} {y : Except ε' β} {f : α → Except ε σ} {g : β → Except ε' τ}
    (h : Alongside R x y) (hf : ∀ a b, R a b → Alongside S (f a) (g b)) :
    Alongside S (x >>= f) (y >>= g) := by
  cases x with
  | error e =>
    cases y with
    | error e' => trivial
    | ok b => exact h.elim
  | ok a =>
    cases y with
    | error e' => exact h.elim
    | ok b => exact hf a b h

theorem mapError {ε₁ ε₂ : Type} {x : Except ε α} {y : Except ε' β} (f : ε → ε₁) (g : ε' → ε₂)
    (h : Alongside R x y) : Alongside R (x.mapError f) (y.mapError g) := by
  cases x with
  | error e =>
    cases y with
    | error e' => trivial
    | ok b => exact h.elim
  | ok a =>
    cases y with
    | error e' => exact h.elim
    | ok b => exact h

theorem foldlM {P : α → β → Prop} {f : σ → α → Except ε σ} {g : τ → β → Except ε' τ}
    {l : List α} {l' : List β} (h : List.Forall₂ P l l')
    (step : ∀ s t a b, P a b → S s t → Alongside S (f s a) (g t b)) {s : σ} {t : τ} (hs : S s t) :
    Alongside S (l.foldlM f s) (l'.foldlM g t) := by
  induction h generalizing s t with
  | nil => exact hs
  | cons hab _ ih => exact (step _ _ _ _ hab hs).bind (fun s' t' hs' => ih hs')

theorem left_ok {x : Except ε α} {y : Except ε' β} {a : α} (h : Alongside R x y)
    (hx : x = .ok a) : ∃ b, y = .ok b ∧ R a b := by
  subst hx
  cases y with
  | error e' => exact h.elim
  | ok b => exact ⟨b,rfl,h⟩

end Alongside

end Fallible
end Lib
