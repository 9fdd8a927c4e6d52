import Mathlib.Data.List.Basic

/-! Entries of a log that are numbered by a counter which only some of the entries move. -/
namespace Lib
namespace Numbering

variable {α : Type} (event moves : α → Bool)

def next (n : ℕ) (a : α) : ℕ := if moves a then n+1 else n

/-- The numbers of the events of a log. An event gets the counter that it meets. -/
def numbers : ℕ → List α → List ℕ
  | _, [] => []
  | n, a::l => if event a then n::numbers (next moves n a) l else numbers (next moves n a) l

def final (n : ℕ) (l : List α) : ℕ := l.foldl (next moves) n

/-- The counter moves before the next event, if there is one. -/
def MovesFirst (l : List α) : Prop :=
  (∀ a ∈ l, event a = false) ∨ ∃ mid a rest, l = mid++a::rest ∧ (∀ x ∈ mid, event x = false) ∧
    event a = false ∧ moves a = true

/-- Every event that does not move the counter is followed by an entry that does, before
the next event. -/
def Separated (l : List α) : Prop :=
  ∀ before a rest, l = before++a::rest → event a = true → moves a = false →
    MovesFirst event moves rest

variable {event moves}

theorem numbers_append (n : ℕ) (l l' : List α) :
    numbers event moves n (l++l') =
      numbers event moves n l++numbers event moves (final moves n l) l' := by
  induction l generalizing n with
  | nil => rfl
  | cons a l ih =>
    have hfinal : final moves n (a::l) = final moves (next moves n a) l := rfl
    rw [List.cons_append,numbers,numbers,ih,hfinal]
    split
    · rfl
    · rfl

theorem final_append (n : ℕ) (l l' : List α) :
    final moves n (l++l') = final moves (final moves n l) l' := List.foldl_append

theorem le_next (n : ℕ) (a : α) : n ≤ next moves n a := by
  unfold next
  split <;> omega

theorem le_of_mem_numbers {n m : ℕ} {l : List α} (hm : m ∈ numbers event moves n l) : n ≤ m := by
  induction l generalizing n with
  | nil => cases hm
  | cons a l ih =>
    rw [numbers] at hm
    split at hm
    · rcases List.mem_cons.mp hm with rfl | hm
      · exact Nat.le_refl _
      · exact Nat.le_trans (le_next n a) (ih hm)
    · exact Nat.le_trans (le_next n a) (ih hm)

/-- Later numbers are larger exactly when the counter moves before them. -/
theorem numbers_gt_iff (n : ℕ) (l : List α) :
    (∀ m ∈ numbers event moves n l, n < m) ↔ MovesFirst event moves l := by
  induction l generalizing n with
  | nil => simp [numbers,MovesFirst]
  | cons a l ih =>
    cases he : event a with
    | true =>
      simp only [numbers,he,if_true]
      constructor
      · intro hall
        exact absurd (hall n (List.mem_cons_self ..)) (Nat.lt_irrefl n)
      · rintro (hnone | ⟨mid,b,rest,hl,hmid,hb,-⟩)
        · rw [hnone a (List.mem_cons_self ..)] at he
          cases he
        · cases mid with
          | nil =>
            obtain ⟨rfl,-⟩ := List.cons.inj hl
            rw [hb] at he
            cases he
          | cons x mid =>
            obtain ⟨rfl,-⟩ := List.cons.inj hl
            rw [hmid _ (List.mem_cons_self ..)] at he
            cases he
    | false =>
      simp only [numbers,he,Bool.false_eq_true,if_false]
      cases hm : moves a with
      | true =>
        refine ⟨fun _ => .inr ⟨[],a,l,rfl,by simp,he,hm⟩,fun _ m hmem => ?_⟩
        have hle := le_of_mem_numbers hmem
        rw [next,if_pos hm] at hle
        exact hle
      | false =>
        rw [next,if_neg (by simp [hm]),ih n]
        constructor
        · rintro (hnone | ⟨mid,b,rest,rfl,hmid,hb,hmove⟩)
          · refine .inl (fun x hx => ?_)
            rcases List.mem_cons.mp hx with rfl | hx
            · exact he
            · exact hnone x hx
          · refine .inr ⟨a::mid,b,rest,rfl,fun x hx => ?_,hb,hmove⟩
            rcases List.mem_cons.mp hx with rfl | hx
            · exact he
            · exact hmid x hx
        · rintro (hnone | ⟨mid,b,rest,hl,hmid,hb,hmove⟩)
          · exact .inl (fun x hx => hnone x (List.mem_cons_of_mem _ hx))
          · cases mid with
            | nil =>
              obtain ⟨rfl,-⟩ := List.cons.inj hl
              rw [hm] at hmove
              cases hmove
            | cons x mid =>
              obtain ⟨rfl,rfl⟩ := List.cons.inj hl
              exact .inr ⟨mid,b,rest,rfl,fun x hx => hmid x (List.mem_cons_of_mem _ hx),hb,hmove⟩

theorem separated_cons {a : α} {l : List α} :
    Separated event moves (a::l) ↔ (event a = true → moves a = false → MovesFirst event moves l) ∧
      Separated event moves l := by
  constructor
  · intro hs
    refine ⟨hs [] a l rfl,fun before b rest hl => ?_⟩
    exact hs (a::before) b rest (by rw [hl]; rfl)
  · rintro ⟨hfirst,hs⟩ before b rest hl
    cases before with
    | nil =>
      obtain ⟨rfl,rfl⟩ := List.cons.inj hl
      exact hfirst
    | cons x before => exact hs before b rest (List.cons.inj hl).2

theorem numbers_increasing_iff (n : ℕ) (l : List α) :
    (numbers event moves n l).Pairwise (· < ·) ↔ Separated event moves l := by
  induction l generalizing n with
  | nil => simp [numbers,Separated]
  | cons a l ih =>
    rw [separated_cons,← ih (next moves n a),numbers]
    cases he : event a with
    | false => simp
    | true =>
      simp only [if_true,List.pairwise_cons,true_implies]
      refine and_congr_left (fun _ => ?_)
      cases hm : moves a with
      | true =>
        simp only [Bool.true_eq_false,false_implies,iff_true]
        intro m hmem
        have hle := le_of_mem_numbers hmem
        rw [next,if_pos hm] at hle
        exact hle
      | false =>
        rw [next,if_neg (by simp [hm]),numbers_gt_iff]
        simp

end Numbering
end Lib
