import Mathlib.Data.List.Basic

/-! A mark names the newest point of a list that a test hits. Moving a mark from one list
to another clears it when its point is gone, and replays the points that are new. -/
namespace Lib
namespace Marks

variable {κ β : Type}

def newest (hit : κ → Option β) (l : List κ) : Option (κ × β) :=
  l.findSome? (fun k => (hit k).map (fun x => (k,x)))

def markOne (hit : κ → Option β) (mark : Option (κ × β)) (k : κ) : Option (κ × β) :=
  match hit k with
  | some x => some (k,x)
  | none => mark

variable {hit hit' : κ → Option β} {l l' : List κ} {k : κ} {mark : Option (κ × β)}

theorem newest_eq_none : newest hit l = none ↔ ∀ k ∈ l, hit k = none := by
  simp [newest,List.findSome?_eq_none_iff]

theorem mem_of_newest {x : β} (h : newest hit l = some (k,x)) : k ∈ l ∧ hit k = some x := by
  obtain ⟨k',hk,he⟩ := List.exists_of_findSome?_eq_some h
  obtain ⟨y,hy,heq⟩ := Option.map_eq_some_iff.mp he
  obtain ⟨rfl,rfl⟩ := Prod.mk.inj heq
  exact ⟨hk,hy⟩

theorem newest_map_snd : (newest hit l).map Prod.snd = l.findSome? hit := by
  induction l with
  | nil => rfl
  | cons k l ih =>
    rw [newest,List.findSome?_cons,List.findSome?_cons]
    cases hit k with
    | none => exact ih
    | some x => rfl

theorem newest_append : newest hit (l++l') = (newest hit l).or (newest hit l') := by
  simp [newest,List.findSome?_append]

theorem newest_congr (h : ∀ k ∈ l, hit k = hit' k) : newest hit l = newest hit' l := by
  induction l with
  | nil => rfl
  | cons k l ih =>
    have ih := ih (fun k' hk' => h k' (List.mem_cons_of_mem _ hk'))
    simp only [newest,List.findSome?_cons,h k List.mem_cons_self] at ih ⊢
    rw [ih]

theorem foldl_markOne (l : List κ) (mark : Option (κ × β)) :
    l.reverse.foldl (markOne hit) mark = (newest hit l).or mark := by
  induction l with
  | nil => rfl
  | cons k l ih =>
    rw [List.reverse_cons,List.foldl_append,ih]
    simp only [List.foldl_cons,List.foldl_nil,markOne,newest,List.findSome?_cons]
    cases hit k with
    | none => rfl
    | some x => rfl

variable [DecidableEq κ]

def clearOne (mark : Option (κ × β)) (k : κ) : Option (κ × β) :=
  if mark.map Prod.fst = some k then none else mark

theorem foldl_clearOne_none (l : List κ) : l.foldl clearOne (none : Option (κ × β)) = none := by
  induction l with
  | nil => rfl
  | cons k l ih => exact ih

theorem foldl_clearOne_some (l : List κ) (k : κ) (x : β) :
    l.foldl clearOne (some (k,x)) = if k ∈ l then none else some (k,x) := by
  induction l with
  | nil => rfl
  | cons k' l ih =>
    rw [List.foldl_cons,clearOne]
    by_cases hk : k = k'
    · subst hk
      simp [foldl_clearOne_none]
    · simp [hk,ih]

/-- Moving a mark to a list that shares its older part with the first one leaves the
newest hit, if and only if no mark is cleared that should fall back to an older one. -/
theorem move_iff {old new base : List κ} (hnot : ∀ k ∈ old, k ∉ base) :
    new.reverse.foldl (markOne hit) (old.foldl clearOne (newest hit (old++base))) =
        newest hit (new++base) ↔
      ((∃ k ∈ old, hit k ≠ none) → (∃ k ∈ base, hit k ≠ none) → ∃ k ∈ new, hit k ≠ none) := by
  have hsome : ∀ l : List κ, (∃ k ∈ l, hit k ≠ none) ↔ newest hit l ≠ none := by
    intro l
    rw [Ne,newest_eq_none]
    simp
  rw [foldl_markOne,newest_append,newest_append,hsome,hsome,hsome]
  cases hold : newest hit old with
  | some e =>
    obtain ⟨k,x⟩ := e
    have hk := (mem_of_newest hold).1
    rw [Option.some_or,foldl_clearOne_some,if_pos hk]
    cases hnew : newest hit new <;> cases hbase : newest hit base <;> simp
  | none =>
    rw [Option.none_or]
    have hkept : old.foldl clearOne (newest hit base) = newest hit base := by
      cases hbase : newest hit base with
      | none => exact foldl_clearOne_none old
      | some e =>
        obtain ⟨k,x⟩ := e
        have hk : k ∉ old := fun hmem => hnot k hmem (mem_of_newest hbase).1
        rw [foldl_clearOne_some,if_neg hk]
    rw [hkept]
    simp

end Marks
end Lib
