import Mathlib.Data.List.Nodup

/-! Lists of entries in which no key is listed twice. What is made of all entries comes
from the entry of one key when it is empty for the others. -/
namespace Lib
namespace Entries

variable {K V β : Type} {l : List (K × V)} {k : K} {f : K × V → List β}

theorem flatMap_of_not_mem (hk : k ∉ l.map Prod.fst) (hf : ∀ e, e.1 ≠ k → f e = []) :
    l.flatMap f = [] := by
  rw [List.flatMap_eq_nil_iff]
  intro e he
  apply hf
  rintro rfl
  exact hk (List.mem_map_of_mem he)

theorem flatMap_of_mem {v : V} (hn : (l.map Prod.fst).Nodup) (hm : (k,v) ∈ l)
    (hf : ∀ e, e.1 ≠ k → f e = []) : l.flatMap f = f (k,v) := by
  induction l with
  | nil => cases hm
  | cons e l ih =>
    obtain ⟨hnot,hn⟩ := List.nodup_cons.mp hn
    rw [List.flatMap_cons]
    rcases List.mem_cons.mp hm with rfl | hm
    · rw [flatMap_of_not_mem hnot hf,List.append_nil]
    · have hne : e.1 ≠ k := by
        intro he
        exact hnot (List.mem_map.mpr ⟨(k,v),hm,he.symm⟩)
      rw [hf e hne,ih hn hm,List.nil_append]

end Entries
end Lib
