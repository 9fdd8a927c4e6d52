import Mathlib.Data.List.Nodup
import Mathlib.Order.Lattice

/-! Walking along a partial function, and where two walks meet. -/
namespace Lib

namespace Walk

variable {α : Type} {f : α → Option α} {a b x z : α} {l l' : List α}

/-- The points of a walk of at most `n` steps. -/
def points (f : α → Option α) : ℕ → α → List α
  | 0, _ => []
  | n+1, a =>
    match f a with
    | none => []
    | some b => a::points f n b

/-- The walk from a point goes through a list of points and ends at another. -/
def Path (f : α → Option α) : α → List α → α → Prop
  | a, [], z => a = z
  | a, x::l, z => a = x ∧ ∃ b, f x = some b ∧ Path f b l z

theorem points_of_path {n : ℕ} (hp : Path f a l z) (hz : f z = none) (hn : l.length ≤ n) :
    points f n a = l := by
  induction l generalizing a n with
  | nil =>
    obtain rfl : a = z := hp
    cases n with
    | zero => rfl
    | succ n => simp only [points,hz]
  | cons x l ih =>
    obtain ⟨rfl,b,hb,hp⟩ := hp
    cases n with
    | zero => simp at hn
    | succ n =>
      simp only [points,hb]
      rw [ih hp (by simpa using hn)]

theorem path_append : Path f a (l++l') z ↔ ∃ b, Path f a l b ∧ Path f b l' z := by
  induction l generalizing a with
  | nil => simp [Path]
  | cons x l ih =>
    simp only [List.cons_append,Path,ih]
    constructor
    · rintro ⟨rfl,b,hb,c,hc,hc'⟩
      exact ⟨c,⟨rfl,b,hb,hc⟩,hc'⟩
    · rintro ⟨c,⟨rfl,b,hb,hc⟩,hc'⟩
      exact ⟨rfl,b,hb,c,hc,hc'⟩

theorem path_mono {g : α → Option α} (hg : ∀ a b, f a = some b → g a = some b)
    (hp : Path f a l z) : Path g a l z := by
  induction l generalizing a with
  | nil => exact hp
  | cons x l ih =>
    obtain ⟨rfl,b,hb,hp⟩ := hp
    exact ⟨rfl,b,hg a b hb,ih hp⟩

theorem path_unique (hp : Path f a l z) (hz : f z = none) (hp' : Path f a l' z) : l = l' := by
  have hlen : ∀ k : List α, ∃ n, k.length ≤ n ∧ l.length ≤ n := fun k =>
    ⟨max k.length l.length,le_max_left _ _,le_max_right _ _⟩
  obtain ⟨n,h₁,h₂⟩ := hlen l'
  rw [← points_of_path hp hz h₂,← points_of_path hp' hz h₁]

theorem path_of_mem (hp : Path f a l z) (hx : x ∈ l) :
    ∃ p t, l = p++x::t ∧ Path f x (x::t) z := by
  obtain ⟨p,t,rfl⟩ := List.append_of_mem hx
  obtain ⟨b,-,hb⟩ := path_append.mp hp
  obtain rfl : b = x := hb.1
  exact ⟨p,t,rfl,hb⟩

theorem meet_at (hp : Path f a l z) (hz : f z = none) (hp' : Path f b l' z) (hx : x ∈ l)
    (hx' : x ∈ l') : ∃ p p' t, l = p++x::t ∧ l' = p'++x::t := by
  obtain ⟨p,t,hl,ht⟩ := path_of_mem hp hx
  obtain ⟨p',t',hl',ht'⟩ := path_of_mem hp' hx'
  obtain rfl := (List.cons.inj (path_unique ht hz ht')).2
  exact ⟨p,p',t,hl,hl'⟩

/-- The way up: every point of a list steps down to the one before it. -/
def Climb (f : α → Option α) : α → List α → α → Prop
  | z, [], a => z = a
  | z, x::l, a => f x = some z ∧ Climb f x l a

instance decidableClimb [DecidableEq α] (f : α → Option α) :
    (z : α) → (l : List α) → (a : α) → Decidable (Climb f z l a)
  | z, [], a => inferInstanceAs (Decidable (z = a))
  | z, x::l, a =>
    have := decidableClimb f x l a
    inferInstanceAs (Decidable (f x = some z ∧ Climb f x l a))

theorem climb_iff_path : Climb f z l a ↔ Path f a l.reverse z := by
  induction l generalizing z with
  | nil => exact eq_comm
  | cons x l ih =>
    simp only [Climb,ih,List.reverse_cons,path_append,Path]
    constructor
    · rintro ⟨hx,hp⟩
      exact ⟨x,hp,rfl,z,hx,rfl⟩
    · rintro ⟨b,hp,rfl,c,hc,rfl⟩
      exact ⟨hc,hp⟩

theorem climb_end_mem (hc : Climb f z l a) (hl : l ≠ []) : a ∈ l := by
  induction l generalizing z with
  | nil => exact absurd rfl hl
  | cons x l ih =>
    cases l with
    | nil =>
      obtain rfl : x = a := hc.2
      exact List.mem_cons_self ..
    | cons y l => exact List.mem_cons_of_mem _ (ih hc.2 (by simp))

/-- A rank that goes down by one on every step and is zero on the last one. -/
def Ranked (f : α → Option α) (z : α) (rank : α → Option ℕ) : Prop :=
  ∀ a b, f a = some b → ∃ n, rank a = some n ∧ (b = z → n = 0) ∧ (b ≠ z → rank b = some (n-1) ∧ 0 < n)

variable {rank : α → Option ℕ}

theorem rank_start (hr : Ranked f z rank) (hz : f z = none) (hp : Path f a (x::l) z) :
    rank a = some l.length := by
  induction l generalizing a x with
  | nil =>
    obtain ⟨rfl,b,hb,hp⟩ := hp
    obtain rfl : b = z := hp
    obtain ⟨n,hn,hzero,-⟩ := hr a b hb
    rw [hn,hzero rfl]
    rfl
  | cons y l ih =>
    obtain ⟨rfl,b,hb,hp⟩ := hp
    obtain ⟨n,hn,-,hpos⟩ := hr a b hb
    have hne : b ≠ z := by
      rintro rfl
      obtain ⟨rfl,b',hb',-⟩ := hp
      rw [hz] at hb'
      cases hb'
    obtain ⟨hprev,hlt⟩ := hpos hne
    have hlen := Option.some.inj (hprev.symm.trans (ih hp))
    rw [hn,List.length_cons]
    congr 1
    omega

/-- The ranks along a walk, counted from its start. -/
theorem rank_along (hr : Ranked f z rank) (hz : f z = none) (hp : Path f a l b) {n i : ℕ}
    (hn : rank a = some n) (hi : l[i]? = some x) : rank x = some (n-i) ∧ i ≤ n := by
  induction l generalizing a n i with
  | nil => simp at hi
  | cons y l ih =>
    obtain ⟨rfl,c,hc,hp⟩ := hp
    cases i with
    | zero =>
      obtain rfl : a = x := by simpa using hi
      exact ⟨hn,Nat.zero_le n⟩
    | succ i =>
      rw [List.getElem?_cons_succ] at hi
      have hne : c ≠ z := by
        rintro rfl
        cases l with
        | nil => simp at hi
        | cons w l =>
          obtain ⟨rfl,d,hd,-⟩ := hp
          rw [hz] at hd
          cases hd
      obtain ⟨m,hm,-,hpos⟩ := hr a c hc
      obtain rfl := Option.some.inj (hn.symm.trans hm)
      obtain ⟨hprev,hlt⟩ := hpos hne
      obtain ⟨hx,hle⟩ := ih hp hprev hi
      refine ⟨?_,by omega⟩
      rw [hx]
      congr 1
      omega

theorem rank_get (hr : Ranked f z rank) (hz : f z = none) (hp : Path f a l z) {i : ℕ}
    (hi : l[i]? = some x) : rank x = some (l.length-1-i) := by
  obtain ⟨hlt,hget⟩ := List.getElem?_eq_some_iff.mp hi
  have hsplit : l = l.take i++x::l.drop (i+1) := by
    rw [← hget,← List.drop_eq_getElem_cons hlt,List.take_append_drop]
  rw [hsplit] at hp
  obtain ⟨b,-,hb⟩ := path_append.mp hp
  obtain rfl : b = x := hb.1
  rw [rank_start hr hz hb,List.length_drop]
  congr 1
  omega

theorem rank_lt_of_mem (hr : Ranked f z rank) (hz : f z = none) (hp : Path f a (x::l) b) {y : α}
    (hy : y ∈ l) : ∃ m n, rank y = some m ∧ rank x = some n ∧ m < n := by
  induction l generalizing a x with
  | nil => cases hy
  | cons w l ih =>
    obtain ⟨rfl,c,hc,hp⟩ := hp
    obtain rfl : c = w := hp.1
    obtain ⟨n,hn,-,hpos⟩ := hr a c hc
    have hne : c ≠ z := by
      rintro rfl
      obtain ⟨d,hd,-⟩ := hp.2
      rw [hz] at hd
      cases hd
    obtain ⟨hprev,hlt⟩ := hpos hne
    rcases List.mem_cons.mp hy with rfl | hy
    · exact ⟨n-1,n,hprev,hn,by omega⟩
    · obtain ⟨m,n',hm,hn',hmn⟩ := ih hp hy
      have := Option.some.inj (hprev.symm.trans hn')
      exact ⟨m,n,hm,hn,by omega⟩

theorem nodup_of_ranked (hr : Ranked f z rank) (hz : f z = none) (hp : Path f a l b) : l.Nodup := by
  induction l generalizing a with
  | nil => exact List.nodup_nil
  | cons x l ih =>
    refine List.nodup_cons.mpr ⟨fun hx => ?_,?_⟩
    · obtain ⟨m,n,hm,hn,hlt⟩ := rank_lt_of_mem hr hz hp hx
      have := Option.some.inj (hm.symm.trans hn)
      omega
    · obtain ⟨-,c,-,hc⟩ := hp
      exact ih hc

theorem end_notMem_of_ranked (hr : Ranked f z rank) (hz : f z = none) (hp : Path f a l b) :
    b ∉ l := by
  intro hb
  obtain ⟨p,t,-,hloop⟩ := path_of_mem hp hb
  have ⟨_,c,hc,_⟩ := hloop
  have hagain : Path f b ((b::t)++[b]) c := path_append.mpr ⟨b,hloop,rfl,c,hc,rfl⟩
  have hnodup := nodup_of_ranked hr hz hagain
  simp at hnodup

theorem path_unique_of_ranked (hr : Ranked f z rank) (hz : f z = none) (hp : Path f a l b)
    (hp' : Path f a l' b) : l = l' := by
  induction l generalizing a l' with
  | nil =>
    obtain rfl : a = b := hp
    cases l' with
    | nil => rfl
    | cons x l' =>
      have hnot := end_notMem_of_ranked hr hz hp'
      rw [hp'.1] at hnot
      exact absurd List.mem_cons_self hnot
  | cons x l ih =>
    obtain ⟨rfl,c,hc,hp⟩ := hp
    cases l' with
    | nil =>
      obtain rfl : a = b := hp'
      exact absurd List.mem_cons_self (end_notMem_of_ranked hr hz (l := a::l) ⟨rfl,c,hc,hp⟩)
    | cons y l' =>
      obtain ⟨rfl,c',hc',hp'⟩ := hp'
      obtain rfl := Option.some.inj (hc.symm.trans hc')
      rw [ih hp hp']

/-- Two walks to one end split into parts that have nothing in common, and one that is
common to both. -/
theorem exists_meet (hr : Ranked f z rank) (hz : f z = none) (hp : Path f a l z)
    (hp' : Path f b l' z) : ∃ p p' t, l = p++t ∧ l' = p'++t ∧ (∀ x ∈ p, x ∉ l') ∧ ∀ x ∈ p', x ∉ l := by
  induction l generalizing a with
  | nil => exact ⟨[],l',[],rfl,(List.append_nil l').symm,by simp,by simp⟩
  | cons x l ih =>
    by_cases hx : x ∈ l'
    · obtain ⟨p,p',t,hl,hl'⟩ := meet_at hp hz hp' (List.mem_cons_self ..) hx
      have hnil : p = [] := by
        cases p with
        | nil => rfl
        | cons y p =>
          have hnodup := nodup_of_ranked hr hz hp
          obtain ⟨rfl,rfl⟩ := List.cons.inj hl
          simp at hnodup
      subst hnil
      refine ⟨[],p',x::t,hl,hl',by simp,fun y hy hy' => ?_⟩
      have hnodup := nodup_of_ranked hr hz hp'
      rw [hl'] at hnodup
      rw [hl] at hy'
      exact (List.nodup_append.mp hnodup).2.2 y hy y hy' rfl
    · obtain ⟨rfl,c,hc,hp⟩ := hp
      obtain ⟨p,p',t,rfl,rfl,h₁,h₂⟩ := ih hp
      refine ⟨a::p,p',t,rfl,rfl,?_,?_⟩
      · intro y hy
        rcases List.mem_cons.mp hy with rfl | hy
        · exact hx
        · exact h₁ y hy
      · intro y hy hmem
        rcases List.mem_cons.mp hmem with rfl | hmem
        · exact hx (List.mem_append_left _ hy)
        · exact h₂ y hy hmem

end Walk
end Lib
