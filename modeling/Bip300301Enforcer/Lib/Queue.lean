import Mathlib.Data.List.Nodup
import Mathlib.Data.Set.Defs
import Mathlib.Logic.Function.Basic

/-! A queue whose items wait until a log settles them above the position that they were queued
at. The log can be rewritten, so that a settled item may wait again. -/
namespace Lib

/-- An item, and the position above which the log has to settle it. -/
structure Queued (π : Type) where
  item : π
  since : Option ℕ

/-- The items that are queued, under their keys. -/
abbrev Queue (κ π : Type) := κ → Option (Queued π)

namespace Queue

variable {κ π β ρ : Type} [DecidableEq κ]

/-- Queue an item. An item that is there already stays, and moves to the position. -/
def put (q : Queue κ π) (k : κ) (x : π) (n : Option ℕ) : Queue κ π :=
  Function.update q k (some ⟨((q k).map Queued.item).getD x,n⟩)

def start (q : Queue κ π) (n : ℕ) : Queue κ π :=
  fun k => (q k).map (fun e => ⟨e.item,e.since.or (some n)⟩)

/-- What a log says about a key, above the position that it is queued at. -/
def verdict (q : Queue κ π) (read : κ → Option ℕ → Option β) (k : κ) : Option β :=
  (q k).bind (fun e => read k e.since)

def waiting (q : Queue κ π) (read : κ → Option ℕ → Option β) : Set κ :=
  {k | ∃ e, q k = some e ∧ read k e.since = none}

omit [DecidableEq κ] in
theorem mem_waiting {q : Queue κ π} {read : κ → Option ℕ → Option β} {k : κ} :
    k ∈ q.waiting read ↔ ∃ e, q k = some e ∧ read k e.since = none := Iff.rfl

instance (q : Queue κ π) (read : κ → Option ℕ → Option β) (k : κ) : Decidable (k ∈ q.waiting read) :=
  decidable_of_iff ((q k).any (fun e => (read k e.since).isNone) = true) (by
    rw [mem_waiting]
    simp [Option.any_eq_true])

/-- The queue that a table holds, whose rows have these keys, items and positions. -/
def ofRows (key : ρ → κ) (entry : ρ → Queued π) (rows : List ρ) : Queue κ π :=
  fun k => (rows.find? (fun r => key r = k)).map entry

variable {q : Queue κ π} {k : κ} {x : π} {n : Option ℕ} {key : ρ → κ} {entry : ρ → Queued π}
  {rows : List ρ} {r : ρ} {e : Queued π}

theorem ofRows_eq_none : ofRows key entry rows k = none ↔ ∀ r ∈ rows, key r ≠ k := by
  simp [ofRows]

theorem ofRows_eq_some (hk : (rows.map key).Nodup) :
    ofRows key entry rows k = some e ↔ ∃ r ∈ rows, key r = k ∧ entry r = e := by
  constructor
  · intro h
    obtain ⟨r,hr,he⟩ := Option.map_eq_some_iff.mp h
    exact ⟨r,List.mem_of_find?_eq_some hr,by simpa using List.find?_some hr,he⟩
  · rintro ⟨r,hr,rfl,rfl⟩
    cases hfind : rows.find? (fun r' => key r' = key r) with
    | none => simp at hfind; exact absurd rfl (hfind r hr)
    | some r' =>
      have hkey : key r' = key r := by simpa using List.find?_some hfind
      rw [ofRows,hfind,List.inj_on_of_nodup_map hk (List.mem_of_find?_eq_some hfind) hr hkey]
      rfl

theorem ofRows_row (hk : (rows.map key).Nodup) (hr : r ∈ rows) :
    ofRows key entry rows (key r) = some (entry r) := (ofRows_eq_some hk).mpr ⟨r,hr,rfl,rfl⟩

theorem ofRows_map {f : ρ → ρ} (hkey : ∀ r, key (f r) = key r)
    (hentry : ∀ r ∈ rows, entry (f r) = entry r) :
    ofRows key entry (rows.map f) = ofRows key entry rows := by
  funext k
  induction rows with
  | nil => rfl
  | cons r rows ih =>
    have ih := ih (fun r' hr' => hentry r' (List.mem_cons_of_mem _ hr'))
    by_cases heq : key r = k
    · simp [ofRows,hkey,heq,hentry r List.mem_cons_self]
    · simpa [ofRows,hkey,heq] using ih

omit [DecidableEq κ] in
theorem keys_append (hk : (rows.map key).Nodup) (hnew : ∀ r' ∈ rows, key r' ≠ key r) :
    ((rows++[r]).map key).Nodup := by
  rw [List.map_append]
  refine List.nodup_append.mpr ⟨hk,List.nodup_singleton _,?_⟩
  rintro k hmem k' hmem' rfl
  obtain ⟨r',hr',rfl⟩ := List.mem_map.mp hmem
  exact hnew r' hr' (List.mem_singleton.mp hmem')

theorem ofRows_append (hnew : ∀ r' ∈ rows, key r' ≠ key r) :
    ofRows key entry (rows++[r]) =
      (ofRows key entry rows).put (key r) (entry r).item (entry r).since := by
  have hnone : ofRows key entry rows (key r) = none := ofRows_eq_none.mpr hnew
  funext k
  by_cases heq : key r = k
  · subst heq
    have hfind : rows.find? (fun r' => key r' = key r) = none := by simpa using hnew
    simp [ofRows,put,hfind]
  · have hrest : Function.update (ofRows key entry rows) (key r) (some ⟨(((ofRows key entry rows)
        (key r)).map Queued.item).getD (entry r).item,(entry r).since⟩) k = ofRows key entry rows k :=
      Function.update_of_ne (Ne.symm heq) _ _
    rw [put,hrest]
    simp [ofRows,List.find?_append,heq]

theorem keys_move {f : ρ → ρ} (hkey : ∀ r, key (f r) = key r) (hk : (rows.map key).Nodup) :
    ((rows.map (fun r => if key r = k then f r else r)).map key).Nodup := by
  rw [List.map_map]
  refine (congrArg List.Nodup (List.map_congr_left (fun r _ => ?_))).mpr hk
  rw [Function.comp_apply]
  split
  · exact hkey r
  · rfl

/-- Moving the row of a key to another position. -/
theorem ofRows_move {f : ρ → ρ} (hkey : ∀ r, key (f r) = key r)
    (hentry : ∀ r, entry (f r) = ⟨(entry r).item,n⟩) (hmem : ∃ r ∈ rows, key r = k) :
    ofRows key entry (rows.map (fun r => if key r = k then f r else r)) =
      (ofRows key entry rows).put k x n := by
  have hkeys : ∀ r, key (if key r = k then f r else r) = key r := by
    intro r
    split <;> simp [hkey]
  funext k'
  have hfind : (rows.map (fun r => if key r = k then f r else r)).find? (fun r => key r = k') =
      (rows.find? (fun r => key r = k')).map (fun r => if key r = k then f r else r) := by
    rw [List.find?_map]
    simp only [Function.comp_def,hkeys]
  rw [ofRows,hfind,put]
  by_cases heq : k' = k
  · subst heq
    obtain ⟨r,hr,hrk⟩ := hmem
    obtain ⟨r',hr'⟩ := Option.isSome_iff_exists.mp
      (List.find?_isSome (p := fun r => decide (key r = k')) |>.mpr ⟨r,hr,by simpa using hrk⟩)
    have hk' : key r' = k' := by simpa using List.find?_some hr'
    simp [ofRows,hr',hk',hentry]
  · rw [Function.update_of_ne heq,ofRows,Option.map_map]
    refine Option.map_congr (fun r hr => ?_)
    have hrk : key r = k' := by simpa using List.find?_some hr
    simp [hrk,heq]

theorem ofRows_start {f : ρ → ρ} {n : ℕ} (hkey : ∀ r, key (f r) = key r)
    (hentry : ∀ r, entry (f r) = ⟨(entry r).item,(entry r).since.or (some n)⟩) :
    ofRows key entry (rows.map f) = (ofRows key entry rows).start n := by
  funext k
  rw [ofRows,start,ofRows,List.find?_map,Option.map_map,Option.map_map]
  simp only [Function.comp_def,hkey,hentry]

theorem mem_waiting_ofRows {read : κ → Option ℕ → Option β} (hk : (rows.map key).Nodup) :
    k ∈ (ofRows key entry rows).waiting read ↔
      ∃ r ∈ rows, key r = k ∧ read k (entry r).since = none := by
  constructor
  · rintro ⟨e,he,hread⟩
    obtain ⟨r,hr,hrk,rfl⟩ := (ofRows_eq_some hk).mp he
    exact ⟨r,hr,hrk,hread⟩
  · rintro ⟨r,hr,rfl,hread⟩
    exact ⟨entry r,ofRows_row hk hr,hread⟩

end Queue
end Lib
