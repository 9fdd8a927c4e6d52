import Bip300301Enforcer.Lib.Fallible

/-! Logs of steps that are undone most recent first. A state is only compared
up to a relation, so that a part of the state that no undo restores can be left
out of the comparison. -/
namespace Lib
namespace Undo

variable {σ δ ε : Type} (undo : δ → σ → Except ε σ) (R : σ → σ → Prop)

/-- Undoing `d` takes every state like `t` to a state like `s`. -/
def Undoes (d : δ) (t s : σ) : Prop := ∀ t', R t' t → ∃ s', undo d t' = .ok s' ∧ R s' s

def undoAll (ds : List δ) (t : σ) : Except ε σ := ds.reverse.foldlM (fun t d => undo d t) t

/-- Undoing the whole log takes every state like `t` to a state like `s`. -/
def UndoesAll (ds : List δ) (t s : σ) : Prop :=
  ∀ t', R t' t → ∃ s', undoAll undo ds t' = .ok s' ∧ R s' s

variable {undo R}

theorem undoesAll_nil (s : σ) : UndoesAll undo R [] s s := by
  intro t' ht
  exact ⟨t',rfl,ht⟩

theorem undoesAll_snoc {ds : List δ} {d : δ} {s t u : σ} (h : UndoesAll undo R ds t s)
    (hd : Undoes undo R d u t) : UndoesAll undo R (ds++[d]) u s := by
  intro u' hu
  obtain ⟨t',ht,hR⟩ := hd u' hu
  obtain ⟨s',hs,hR'⟩ := h t' hR
  refine ⟨s',?_,hR'⟩
  simp only [undoAll,List.reverse_append,List.reverse_cons,List.reverse_nil,List.nil_append,
    List.singleton_append,List.foldlM_cons,ht,Fallible.ok_bind]
  exact hs

end Undo
end Lib
