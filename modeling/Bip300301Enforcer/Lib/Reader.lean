import Mathlib.Data.List.Infix
import Mathlib.Order.Lattice

/-! Reading from a source that hands out its content in pieces of any size. -/
namespace Lib

namespace Reader

variable {σ β : Type}

/-- Read until a number of items is there. The reading stops early when a piece is empty.
Every other piece has at least one item, so that the number of items is enough fuel. -/
def fill (read : σ → ℕ → List β × σ) : ℕ → σ → ℕ → List β → Option (List β) × σ
  | _, s, 0, acc => (some acc,s)
  | 0, s, _+1, _ => (none,s)
  | fuel+1, s, len+1, acc =>
    match read s (len+1) with
    | ([],s) => (none,s)
    | (b::bs,s) => fill read fuel s (len+1-(b::bs).length) (acc++b::bs)

def readExact (read : σ → ℕ → List β × σ) (s : σ) (len : ℕ) : Option (List β) × σ :=
  fill read len s len []

/-- Each read hands out a piece of the content from the current position on, which is empty
only at the end. -/
structure Delivers (read : σ → ℕ → List β × σ) (content : List β) (pos : σ → ℕ) (Inv : σ → Prop) :
    Prop where
  piece : ∀ s len, Inv s → (read s (len+1)).1 <+: (content.drop (pos s)).take (len+1)
  advance : ∀ s len, Inv s → pos (read s (len+1)).2 = pos s+(read s (len+1)).1.length
  inv : ∀ s len, Inv s → Inv (read s (len+1)).2
  nil : ∀ s len, Inv s → (read s (len+1)).1 = [] → content.length ≤ pos s

/-- Items changed by their position, the first of them at the position given. -/
def mapFrom (f : ℕ → β → β) (pos : ℕ) (items : List β) : List β :=
  items.mapIdx (fun i => f (pos+i))

section MapFrom
variable {f : ℕ → β → β}

@[simp] theorem length_mapFrom (pos : ℕ) (items : List β) :
    (mapFrom f pos items).length = items.length := by
  simp [mapFrom]

theorem mapFrom_append (pos : ℕ) (as bs : List β) :
    mapFrom f pos (as++bs) = mapFrom f pos as++mapFrom f (pos+as.length) bs := by
  simp [mapFrom,List.mapIdx_append,Nat.add_assoc,Nat.add_comm as.length]

theorem mapFrom_take (pos n : ℕ) (items : List β) :
    (mapFrom f pos items).take n = mapFrom f pos (items.take n) := by
  apply List.ext_getElem?
  intro i
  simp only [mapFrom,List.getElem?_take,List.getElem?_mapIdx]
  split <;> rfl

theorem mapFrom_drop (pos n : ℕ) (items : List β) :
    (mapFrom f pos items).drop n = mapFrom f (pos+n) (items.drop n) := by
  apply List.ext_getElem?
  intro i
  simp [mapFrom,Nat.add_assoc]

theorem mapFrom_mapFrom (hf : ∀ i b, f i (f i b) = b) (pos : ℕ) (items : List β) :
    mapFrom f pos (mapFrom f pos items) = items := by
  apply List.ext_getElem?
  intro i
  have hcomp : f (pos+i) ∘ f (pos+i) = id := funext (hf (pos+i))
  simp [mapFrom,hcomp]

end MapFrom

variable {read : σ → ℕ → List β × σ} {content : List β} {pos : σ → ℕ} {Inv : σ → Prop}

theorem take_of_prefix {l piece : List β} {n : ℕ} (hp : piece <+: l.take n) :
    l.take n = piece++(l.drop piece.length).take (n-piece.length) := by
  calc l.take n
      = (l.take n).take piece.length++(l.take n).drop piece.length :=
        (List.take_append_drop ..).symm
    _ = piece++(l.drop piece.length).take (n-piece.length) := by
        rw [← List.prefix_iff_eq_take.mp hp,List.drop_take]

/-- Reading items that are there. -/
theorem Delivers.fill_ok (hd : Delivers read content pos Inv) {fuel len : ℕ} {s : σ} (acc : List β)
    (hs : Inv s) (hfuel : len ≤ fuel) (hlen : pos s+len ≤ content.length) :
    ∃ s', fill read fuel s len acc = (some (acc++(content.drop (pos s)).take len),s') ∧
      pos s' = pos s+len ∧ Inv s' := by
  induction fuel generalizing s len acc with
  | zero =>
    obtain rfl : len = 0 := by omega
    exact ⟨s,by simp [fill],rfl,hs⟩
  | succ fuel ih =>
    cases len with
    | zero => exact ⟨s,by simp [fill],rfl,hs⟩
    | succ len =>
      have hpiece := hd.piece s len hs
      have hpos := hd.advance s len hs
      have hinv := hd.inv s len hs
      have hnil := hd.nil s len hs
      unfold fill
      rcases hread : read s (len+1) with ⟨_ | ⟨b,bs⟩,s₁⟩
      · rw [hread] at hnil
        have := hnil rfl
        omega
      · rw [hread] at hpiece hpos hinv
        dsimp only at hpiece hpos hinv ⊢
        have hlen₁ : (b::bs).length ≤ len+1 := le_trans hpiece.length_le (List.length_take_le ..)
        obtain ⟨s',hfill,hpos',hinv'⟩ := ih (acc++b::bs) hinv (show len+1-(b::bs).length ≤ fuel by
          simp only [List.length_cons] at hlen₁ ⊢; omega) (by omega)
        refine ⟨s',?_,by omega,hinv'⟩
        rw [hfill,hpos]
        have hsplit := take_of_prefix hpiece
        rw [hsplit,List.drop_drop,List.append_assoc]

/-- A reading that asks for more than there is goes on to the end of the content. -/
theorem Delivers.fill_eof (hd : Delivers read content pos Inv) {fuel len : ℕ} {s : σ} (acc : List β)
    (hs : Inv s) (hfuel : len ≤ fuel) (hlen : content.length < pos s+len) (hpos : 0 < len) :
    ∃ s', fill read fuel s len acc = (none,s') ∧ content.length ≤ pos s' ∧ pos s ≤ pos s' ∧ Inv s' := by
  induction fuel generalizing s len acc with
  | zero => omega
  | succ fuel ih =>
    obtain ⟨len,rfl⟩ : ∃ m, len = m+1 := ⟨len-1,by omega⟩
    have hpiece := hd.piece s len hs
    have hadvance := hd.advance s len hs
    have hinv := hd.inv s len hs
    have hnil := hd.nil s len hs
    unfold fill
    rcases hread : read s (len+1) with ⟨_ | ⟨b,bs⟩,s₁⟩
    · rw [hread] at hnil hadvance hinv
      refine ⟨s₁,rfl,?_,?_,hinv⟩
      · rw [hadvance]
        exact hnil rfl
      · rw [hadvance]
        exact Nat.le_add_right ..
    · rw [hread] at hpiece hadvance hinv
      dsimp only at hpiece hadvance hinv ⊢
      have hlen₁ := hpiece.length_le
      rw [List.length_take,List.length_drop] at hlen₁
      have hone : 0 < (b::bs).length := Nat.succ_pos _
      obtain ⟨s',hfill,hend,hle,hinv'⟩ := ih (acc++b::bs) hinv
        (show len+1-(b::bs).length ≤ fuel by omega) (by omega) (by omega)
      exact ⟨s',hfill,hend,by omega,hinv'⟩

theorem Delivers.readExact_ok (hd : Delivers read content pos Inv) {len : ℕ} {s : σ} (hs : Inv s)
    (hlen : pos s+len ≤ content.length) :
    ∃ s', readExact read s len = (some ((content.drop (pos s)).take len),s') ∧
      pos s' = pos s+len ∧ Inv s' := by
  simpa [readExact] using hd.fill_ok [] hs le_rfl hlen

theorem Delivers.readExact_eof (hd : Delivers read content pos Inv) {len : ℕ} {s : σ} (hs : Inv s)
    (hlen : content.length < pos s+len) (hpos : 0 < len) :
    ∃ s', readExact read s len = (none,s') ∧ content.length ≤ pos s' ∧ pos s ≤ pos s' ∧ Inv s' :=
  hd.fill_eof [] hs le_rfl hlen hpos

end Reader
end Lib
