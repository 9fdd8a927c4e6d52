import Mathlib.Data.List.Basic

/-! Properties of the elements of a list that depend on the elements before them. -/
namespace Lib

variable {α : Type} {F : List α → α → Prop} {l : List α} {a : α}

/-- A property holds of each element and the elements before it. -/
def AtEach (F : List α → α → Prop) (l : List α) : Prop :=
  ∀ before a after, l = before++a::after → F before a

namespace AtEach

theorem nil : AtEach F [] := by
  intro before a after hl
  simp at hl

theorem cons : AtEach F (a::l) ↔ F [] a ∧ AtEach (fun before => F (a::before)) l := by
  constructor
  · intro h
    exact ⟨h [] a l rfl,fun before b after hl => h (a::before) b after (by rw [hl,List.cons_append])⟩
  · rintro ⟨hhead,htail⟩ before b after hl
    cases before with
    | nil =>
      obtain ⟨rfl,-⟩ := List.cons.inj hl
      exact hhead
    | cons x before =>
      obtain ⟨rfl,htl⟩ := List.cons.inj hl
      exact htail before b after htl

theorem snoc : AtEach F (l++[a]) ↔ AtEach F l ∧ F l a := by
  constructor
  · intro h
    exact ⟨fun before b after hl => h before b (after++[a]) (by rw [hl]; simp),h l a [] rfl⟩
  · rintro ⟨hinit,hlast⟩ before b after hl
    rcases List.eq_nil_or_concat after with rfl | ⟨after,x,rfl⟩
    · obtain ⟨rfl,hx⟩ := List.append_inj' hl rfl
      rw [← List.singleton_inj.mp hx]
      exact hlast
    · rw [List.concat_eq_append,← List.cons_append,← List.append_assoc] at hl
      exact hinit before b after (List.append_inj' hl rfl).1

theorem imp {G : List α → α → Prop} (h : AtEach F l) (hFG : ∀ before, ∀ a ∈ l, F before a → G before a) :
    AtEach G l := by
  intro before a after hl
  exact hFG before a (by simp [hl]) (h before a after hl)

end AtEach
end Lib
