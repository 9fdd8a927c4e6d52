import Mathlib.Data.List.Count
import Mathlib.Data.List.Infix

/-! Counters that go up and down by one and do not fall below zero. -/
namespace Lib

inductive Vote
  | up
  | down
deriving DecidableEq

namespace FloorWalk

def step (n : ℕ) : Vote → ℕ
  | .up => n+1
  | .down => n-1

def walk (n : ℕ) (l : List Vote) : ℕ := l.foldl step n

@[simp] theorem walk_nil (n : ℕ) : walk n [] = n := rfl

@[simp] theorem walk_cons (n : ℕ) (v : Vote) (l : List Vote) :
    walk n (v::l) = walk (step n v) l := rfl

theorem walk_append (n : ℕ) (l l' : List Vote) : walk n (l++l') = walk (walk n l) l' := by
  simp [walk]

theorem walk_le (n : ℕ) (l : List Vote) : walk n l ≤ n+l.count .up := by
  induction l generalizing n with
  | nil => simp
  | cons v l ih =>
    have h := ih (step n v)
    cases v with
    | up => simp [step] at h ⊢; omega
    | down => simp [step] at h ⊢; omega

theorem le_walk (n : ℕ) (l : List Vote) : n+l.count .up ≤ walk n l+l.count .down := by
  induction l generalizing n with
  | nil => simp
  | cons v l ih =>
    have h := ih (step n v)
    cases v with
    | up => simp [step] at h ⊢; omega
    | down => simp [step] at h ⊢; omega

theorem suffix_le_walk {n : ℕ} {l l' : List Vote} (h : l' <:+ l) :
    l'.count .up ≤ walk n l+l'.count .down := by
  obtain ⟨before,rfl⟩ := h
  have hle := le_walk (walk n before) l'
  rw [walk_append]
  omega

end FloorWalk
end Lib
