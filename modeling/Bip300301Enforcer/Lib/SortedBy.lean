import Mathlib.Data.List.Perm.Basic

/-! Lists that are sorted by a number of each element. -/
namespace Lib

namespace SortedBy

variable {α : Type} {f : α → ℕ} {l l' : List α}

theorem split (hs : l.Pairwise (fun a b => f a ≤ f b)) (n : ℕ) :
    l = l.filter (fun a => f a < n)++l.filter (fun a => n ≤ f a) := by
  induction l with
  | nil => rfl
  | cons a l ih =>
    obtain ⟨hle,hs⟩ := List.pairwise_cons.mp hs
    by_cases ha : f a < n
    · rw [List.filter_cons_of_pos (by simpa using ha),List.filter_cons_of_neg (by simpa using ha),
        List.cons_append,← ih hs]
    · have hnone : l.filter (fun a => f a < n) = [] := by
        refine List.filter_eq_nil_iff.mpr (fun b hb => ?_)
        have := hle b hb
        simp only [decide_eq_true_eq]
        omega
      have hall : l.filter (fun a => n ≤ f a) = l := by
        refine List.filter_eq_self.mpr (fun b hb => decide_eq_true ?_)
        have := hle b hb
        omega
      rw [List.filter_cons_of_neg (by simpa using ha),List.filter_cons_of_pos (by simpa using ha),
        hnone,hall,List.nil_append]

/-- The elements come in the order of their numbers. -/
theorem eq_flatMap_filter (hs : l.Pairwise (fun a b => f a ≤ f b)) (n : ℕ) (hn : ∀ a ∈ l, f a < n) :
    l = (List.range n).flatMap (fun k => l.filter (fun a => f a = k)) := by
  induction n generalizing l with
  | zero =>
    have hnil : l = [] := List.eq_nil_iff_forall_not_mem.mpr (fun a ha => absurd (hn a ha) (by omega))
    rw [hnil]
    rfl
  | succ n ih =>
    have hlow := ih (hs.filter (fun a => f a < n))
      (fun a ha => of_decide_eq_true (List.mem_filter.mp ha).2)
    have hlast : l.filter (fun a => n ≤ f a) = l.filter (fun a => f a = n) := by
      refine List.filter_congr (fun a ha => ?_)
      have := hn a ha
      simp only [decide_eq_decide]
      omega
    have hsame : (List.range n).flatMap (fun k => (l.filter (fun a => f a < n)).filter (fun a => f a = k)) =
        (List.range n).flatMap (fun k => l.filter (fun a => f a = k)) := by
      refine List.flatMap_congr (fun k hk => ?_)
      rw [List.filter_filter]
      refine List.filter_congr (fun a _ => ?_)
      have := List.mem_range.mp hk
      by_cases hak : f a = k
      · simp [hak,this]
      · simp [hak]
    rw [List.range_succ,List.flatMap_append,← hsame,← hlow,List.flatMap_singleton,← hlast]
    exact split hs n

theorem filter_eq_of_perm (hp : l'.Perm l) {p : α → Bool} (hone : (l.filter p).length ≤ 1) :
    l'.filter p = l.filter p := by
  have hperm := hp.filter p
  match hl : l.filter p with
  | [] =>
    rw [hl] at hperm
    exact hperm.eq_nil
  | [a] =>
    rw [hl] at hperm
    exact List.perm_singleton.mp hperm
  | a::b::rest =>
    rw [hl] at hone
    simp at hone

/-- An element that there is once is at one place. -/
theorem eq_of_getElem? {p : α → Bool} (hone : (l.filter p).length ≤ 1) {i j : ℕ} {a b : α}
    (hi : l[i]? = some a) (hj : l[j]? = some b) (ha : p a = true) (hb : p b = true) : i = j := by
  induction l generalizing i j with
  | nil => simp at hi
  | cons c l ih =>
    have hrest : ∀ {k : ℕ} {d}, l[k]? = some d → p d = true → 0 < (l.filter p).length := by
      intro k d hk hd
      exact List.length_pos_of_mem (List.mem_filter.mpr ⟨List.mem_of_getElem? hk,hd⟩)
    cases i with
    | zero =>
      obtain rfl := Option.some.inj hi
      cases j with
      | zero => rfl
      | succ j =>
        have := hrest hj hb
        rw [List.filter_cons_of_pos ha,List.length_cons] at hone
        omega
    | succ i =>
      cases j with
      | zero =>
        obtain rfl := Option.some.inj hj
        have := hrest hi ha
        rw [List.filter_cons_of_pos hb,List.length_cons] at hone
        omega
      | succ j =>
        have hle : (l.filter p).length ≤ 1 :=
          Nat.le_trans ((List.sublist_cons_self c l).filter p).length_le hone
        rw [ih hle hi hj]

end SortedBy
end Lib
