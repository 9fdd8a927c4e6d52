import Bip300301Enforcer.Lib.FinMap

/-! Ledgers of unspent outputs. A transaction spends outputs that are there, each
of them once, and then creates new ones. -/
namespace Lib
open Std

abbrev Ledger (O V : Type) [Ord O] := FinMap O V

namespace Ledger

variable {O V : Type} [Ord O] [TransOrd O] [LawfulEqOrd O] [DecidableEq O]

def spend (L : Ledger O V) : List O → Option (Ledger O V)
  | [] => some L
  | o::rest => if L.contains o then spend (L.erase o) rest else none

def create (L : Ledger O V) (outs : List (O × V)) : Ledger O V := FinMap.insertAll L outs

/-- Spending takes different outputs that are there, and nothing else. -/
theorem spend_some {L L' : Ledger O V} {l : List O} (h : spend L l = some L') :
    l.Nodup ∧ (∀ o ∈ l, L.contains o = true) ∧
      ∀ o, L'.get? o = if o ∈ l then none else L.get? o := by
  induction l generalizing L with
  | nil =>
    obtain rfl := Option.some.inj h
    simp
  | cons a l ih =>
    rw [spend] at h
    by_cases ha : L.contains a = true
    · rw [if_pos ha] at h
      obtain ⟨hn,hin,hget⟩ := ih h
      have hnot : a ∉ l := by
        intro hm
        have := hin a hm
        simp [FinMap.contains_erase] at this
      refine ⟨List.nodup_cons.mpr ⟨hnot,hn⟩,?_,?_⟩
      · intro o ho
        rcases List.mem_cons.mp ho with rfl | ho
        · exact ha
        · have := hin o ho
          rw [FinMap.contains_erase] at this
          exact (Bool.and_eq_true_iff.mp this).2
      · intro o
        rw [hget o,FinMap.get?_erase]
        by_cases ho : o ∈ l
        · simp [ho]
        · by_cases hoa : a = o
          · simp [hoa]
          · simp [ho,hoa,Ne.symm hoa]
    · rw [if_neg ha] at h
      cases h

theorem get?_create {L : Ledger O V} {outs : List (O × V)} (h : (outs.map Prod.fst).Nodup) (o : O) :
    (create L outs).get? o =
      match outs.find? (fun e => e.1 = o) with
      | some e => some e.2
      | none => L.get? o := FinMap.get?_insertAll outs L h o

end Ledger
end Lib
