import Mathlib.Data.List.Basic

/-! Logs of a thing that is opened again and again, and each time is closed or expires
within its life. -/
namespace Lib

/-- What a log says of a thing. -/
inductive Mark
  | opened
  | expired
  | closed
deriving DecidableEq

/-- A log of a thing with this life. At the end of the log the thing is open since some
time, or it is not open. -/
inductive Lived (life : ℕ) : List (ℕ × Mark) → Option ℕ → Prop
  | start : Lived life [] none
  | opened {l : List (ℕ × Mark)} {n : ℕ} (lived : Lived life l none) :
      Lived life (l++[(n,.opened)]) (some n)
  | expired {l : List (ℕ × Mark)} {k : ℕ} (lived : Lived life l (some k)) :
      Lived life (l++[(k+life+1,.expired)]) none
  | closed {l : List (ℕ × Mark)} {k n : ℕ} (lived : Lived life l (some k)) (later : k ≤ n)
      (inTime : n ≤ k+life) : Lived life (l++[(n,.closed)]) none

namespace Lived

variable {life : ℕ} {l before after : List (ℕ × Mark)} {since : Option ℕ} {n : ℕ}

def Ends (life n : ℕ) (e : ℕ × Mark) : Prop :=
  e = (n+life+1,.expired) ∨ ∃ m, e = (m,.closed) ∧ n ≤ m ∧ m ≤ n+life

theorem mem_snoc {α : Type} {a before after : List α} {x y : α} (h : a++[x] = before++y::after) :
    (after = [] ∧ x = y) ∨ ∃ mid, after = mid++[x] ∧ a = before++y::mid := by
  rcases List.append_eq_append_iff.mp h with ⟨l,-,hx⟩ | ⟨l,rfl,hy⟩
  · cases l with
    | nil =>
      obtain ⟨rfl,hafter⟩ := List.cons.inj hx
      exact .inl ⟨hafter.symm,rfl⟩
    | cons z l => simp at hx
  · cases l with
    | nil =>
      obtain ⟨rfl,rfl⟩ := List.cons.inj hy
      exact .inl ⟨rfl,rfl⟩
    | cons z l =>
      obtain ⟨rfl,rfl⟩ := List.cons.inj hy
      exact .inr ⟨l,rfl,rfl⟩

/-- What is opened stays open until the next mark, and this one ends its life in time. -/
theorem ends (h : Lived life l since) (hl : l = before++(n,.opened)::after) :
    (after = [] ∧ since = some n) ∨ ∃ e rest, after = e::rest ∧ Ends life n e := by
  -- a further mark ends the life of what was opened just before it, and else changes nothing
  have later {a mid : List (ℕ × Mark)} {o : Option ℕ} {x : ℕ × Mark}
      (hx : ∀ k, o = some k → Ends life k x) (ho : o ≠ none)
      (ih : (mid = [] ∧ o = some n) ∨ ∃ e rest, mid = e::rest ∧ Ends life n e) :
      ∃ e rest, mid++[x] = e::rest ∧ Ends life n e := by
    rcases ih with ⟨rfl,rfl⟩ | ⟨e,rest,rfl,he⟩
    · exact ⟨x,[],rfl,hx n rfl⟩
    · exact ⟨e,rest++[x],rfl,he⟩
  induction h generalizing after with
  | start => simp at hl
  | @opened a m h ih =>
    rcases mem_snoc hl with ⟨rfl,he⟩ | ⟨mid,rfl,ha⟩
    · simp only [Prod.mk.injEq,and_true] at he
      exact .inl ⟨rfl,by rw [he]⟩
    · rcases ih ha with ⟨-,hnone⟩ | ⟨e,rest,rfl,he⟩
      · cases hnone
      · exact .inr ⟨e,rest++[(m,.opened)],rfl,he⟩
  | @expired a k h ih =>
    rcases mem_snoc hl with ⟨-,he⟩ | ⟨mid,rfl,ha⟩
    · simp at he
    · refine .inr (later (a := a) ?_ (by simp) (ih ha))
      intro k' hk
      obtain rfl := Option.some.inj hk
      exact .inl rfl
  | @closed a k m h hkm hm ih =>
    rcases mem_snoc hl with ⟨-,he⟩ | ⟨mid,rfl,ha⟩
    · simp at he
    · refine .inr (later (a := a) ?_ (by simp) (ih ha))
      intro k' hk
      obtain rfl := Option.some.inj hk
      exact .inr ⟨m,rfl,hkm,hm⟩

end Lived
end Lib
