import Bip300301Enforcer.Lib.Fallible
import Mathlib.Data.List.Nodup
import Mathlib.Data.List.InsertIdx

/-! Maps that remember the order in which their keys were inserted. The entries
are listed in that order, and no key is listed twice. -/
namespace Lib

/-- An insertion-ordered map. -/
structure OrderMap (K V : Type) where
  entries : List (K × V)
  nodup : (entries.map Prod.fst).Nodup

namespace OrderMap

variable {K V : Type}

theorem ext {m m' : OrderMap K V} (h : m.entries = m'.entries) : m = m' := by
  cases m; cases m'; simpa using h

def empty : OrderMap K V := ⟨[],by simp⟩

def len (m : OrderMap K V) : ℕ := m.entries.length

def keys (m : OrderMap K V) : List K := m.entries.map Prod.fst

def getIndex (m : OrderMap K V) (i : ℕ) : Option (K × V) := m.entries[i]?

def mapVals (m : OrderMap K V) (f : K → V → V) : OrderMap K V :=
  ⟨m.entries.map (fun e => (e.1,f e.1 e.2)),by simpa [Function.comp_def] using m.nodup⟩

variable [DecidableEq K]

instance [DecidableEq V] : DecidableEq (OrderMap K V) := fun m m' =>
  decidable_of_iff (m.entries = m'.entries) ⟨ext,fun h => by rw [h]⟩

def get? (m : OrderMap K V) (k : K) : Option V := (m.entries.find? (fun e => e.1 = k)).map Prod.snd

def contains (m : OrderMap K V) (k : K) : Bool := (m.get? k).isSome

def getFull (m : OrderMap K V) (k : K) : Option (ℕ × V) :=
  (m.get? k).map (fun v => (m.entries.findIdx (fun e => e.1 = k),v))

theorem mem_entries {m : OrderMap K V} {k : K} {v : V} : (k,v) ∈ m.entries ↔ m.get? k = some v := by
  obtain ⟨l,hl⟩ := m
  simp only [get?]
  induction l with
  | nil => simp
  | cons e l ih =>
    obtain ⟨a,w⟩ := e
    simp only [List.map_cons,List.nodup_cons] at hl
    by_cases h : a = k
    · subst h
      simp only [List.mem_cons,Prod.mk.injEq,true_and,List.find?_cons,decide_true,Option.map_some,
        Option.some.injEq]
      constructor
      · rintro (rfl | hm)
        · rfl
        · exact absurd (List.mem_map_of_mem hm) hl.1
      · intro h; exact .inl h.symm
    · simp [h,Ne.symm h,ih hl.2]

omit [DecidableEq K] in
/-- Maps that list the same keys are equal when one has the entries of the other. -/
theorem ext_of_keys {m m' : OrderMap K V} (hk : m.keys = m'.keys)
    (he : ∀ k v, (k,v) ∈ m.entries → (k,v) ∈ m'.entries) : m = m' := by
  obtain ⟨l,hl⟩ := m
  obtain ⟨l',hl'⟩ := m'
  apply ext
  change l.map Prod.fst = l'.map Prod.fst at hk
  change ∀ k v, (k,v) ∈ l → (k,v) ∈ l' at he
  change l = l'
  induction l generalizing l' with
  | nil => simpa using hk.symm
  | cons a l ih =>
    cases l' with
    | nil => simp at hk
    | cons b l' =>
      simp only [List.map_cons,List.cons.injEq] at hk
      simp only [List.map_cons,List.nodup_cons] at hl hl'
      have hab : a = b := by
        rcases List.mem_cons.mp (he a.1 a.2 List.mem_cons_self) with h | h
        · exact h
        · exact absurd (List.mem_map_of_mem h) (hk.1 ▸ hl'.1)
      subst hab
      rw [ih hl.2 l' hl'.2 hk.2]
      intro k v hmem
      rcases List.mem_cons.mp (he k v (List.mem_cons_of_mem _ hmem)) with h | h
      · exact absurd (h ▸ List.mem_map_of_mem hmem) hl.1
      · exact h

theorem contains_iff {m : OrderMap K V} {k : K} : m.contains k = true ↔ k ∈ m.keys := by
  simp only [contains,Option.isSome_iff_exists,← mem_entries,keys,List.mem_map]
  constructor
  · rintro ⟨v,hv⟩; exact ⟨(k,v),hv,rfl⟩
  · rintro ⟨⟨_,v⟩,hv,rfl⟩; exact ⟨v,hv⟩

theorem get?_eq_none {m : OrderMap K V} {k : K} : m.get? k = none ↔ k ∉ m.keys := by
  rw [← contains_iff,contains]
  simp

@[simp] theorem get?_empty (k : K) : (empty : OrderMap K V).get? k = none := rfl

@[simp] theorem get?_mapVals (m : OrderMap K V) (f : K → V → V) (k : K) :
    (m.mapVals f).get? k = (m.get? k).map (f k) := by
  cases h : m.get? k with
  | none =>
    rw [get?_eq_none] at h
    rw [Option.map_none,get?_eq_none]
    simpa [keys,mapVals,Function.comp_def] using h
  | some v =>
    rw [Option.map_some]
    exact mem_entries.mp (List.mem_map.mpr ⟨(k,v),mem_entries.mpr h,rfl⟩)

omit [DecidableEq K] in
@[simp] theorem keys_mapVals (m : OrderMap K V) (f : K → V → V) : (m.mapVals f).keys = m.keys := by
  simp [keys,mapVals,Function.comp_def]

omit [DecidableEq K] in
theorem mapVals_mapVals (m : OrderMap K V) (f g : K → V → V) :
    (m.mapVals f).mapVals g = m.mapVals (fun k v => g k (f k v)) := by
  apply ext
  simp [mapVals,Function.comp_def]

theorem mapVals_congr {m : OrderMap K V} {f g : K → V → V}
    (h : ∀ k v, m.get? k = some v → f k v = g k v) : m.mapVals f = m.mapVals g := by
  apply ext
  apply List.map_congr_left
  rintro ⟨k,v⟩ hm
  rw [h k v (mem_entries.mp hm)]

theorem mapVals_eq_self {m : OrderMap K V} {f : K → V → V}
    (h : ∀ k v, m.get? k = some v → f k v = v) : m.mapVals f = m := by
  rw [mapVals_congr h]
  apply ext
  simp [mapVals]

def modify (m : OrderMap K V) (k : K) (f : V → V) : OrderMap K V :=
  m.mapVals (fun a v => if a = k then f v else v)

/-- Set the value of a key. A key that is there keeps its position, a new key
goes to the end. -/
def insert (m : OrderMap K V) (k : K) (v : V) : OrderMap K V :=
  if h : k ∈ m.keys then m.mapVals (fun a w => if a = k then v else w)
  else ⟨m.entries++[(k,v)],by
    simp only [List.map_append,List.map_cons,List.map_nil]
    exact List.Nodup.append m.nodup (by simp) (by simpa [keys] using h)⟩

def remove (m : OrderMap K V) (k : K) : OrderMap K V :=
  ⟨m.entries.filter (fun e => e.1 ≠ k),m.nodup.sublist (List.filter_sublist.map _)⟩

/-- Change every value in place, stopping at the first failure. -/
def traverseVals {ε : Type} (m : OrderMap K V) (f : K → V → Except ε V) :
    Except ε (OrderMap K V) :=
  m.entries.foldlM (fun acc e => (f e.1 e.2).map (acc.insert e.1)) m

theorem insert_of_not_mem {m : OrderMap K V} {k : K} (v : V) (h : k ∉ m.keys) :
    (m.insert k v).entries = m.entries++[(k,v)] := by
  simp [insert,h]

theorem insert_of_mem {m : OrderMap K V} {k : K} (v : V) (h : k ∈ m.keys) :
    m.insert k v = m.mapVals (fun a w => if a = k then v else w) := by
  simp [insert,h]

theorem foldl_modify (l : List K) (hl : l.Nodup) (f : V → V) (m : OrderMap K V) :
    l.foldl (fun m k => m.modify k f) m = m.mapVals (fun a v => if a ∈ l then f v else v) := by
  induction l generalizing m with
  | nil => exact (mapVals_eq_self (by simp)).symm
  | cons k l ih =>
    simp only [List.nodup_cons] at hl
    rw [List.foldl_cons,ih hl.2,modify,mapVals_mapVals]
    apply mapVals_congr
    intro a v _
    by_cases h : a = k
    · subst h; simp [hl.1]
    · simp [h]

theorem traverseVals_ok {ε : Type} {m : OrderMap K V} {f : K → V → Except ε V} {g : K → V → V}
    (h : ∀ k v, m.get? k = some v → f k v = .ok (g k v)) : m.traverseVals f = .ok (m.mapVals g) := by
  have step := Fallible.foldlM_succeeds (f := fun acc e => (f e.1 e.2).map (acc.insert e.1))
    (I := fun done acc => acc = m.mapVals (fun a v => if a ∈ done.map Prod.fst then g a v else v))
    (l := m.entries) (s := m) (mapVals_eq_self (by simp)).symm ?_
  · obtain ⟨m',hm',rfl⟩ := step
    refine hm'.trans (congrArg _ (mapVals_congr ?_))
    intro k v hk
    rw [if_pos]
    exact List.mem_map.mpr ⟨(k,v),mem_entries.mpr hk,rfl⟩
  · rintro done ⟨k,v⟩ rest acc hl rfl
    have hk : m.get? k = some v := mem_entries.mp (by simp [hl])
    refine ⟨_,by rw [h k v hk]; rfl,?_⟩
    have hmem : k ∈ m.keys := List.mem_map.mpr ⟨(k,v),mem_entries.mpr hk,rfl⟩
    rw [insert_of_mem _ (by simpa using hmem),mapVals_mapVals]
    apply mapVals_congr
    intro a w hw
    by_cases e : a = k
    · subst e
      obtain rfl := Option.some.inj (hk.symm.trans hw)
      simp
    · have hd : a ∈ (done++[(k,v)]).map Prod.fst ↔ a ∈ done.map Prod.fst := by simp [e]
      simp only [if_neg e,hd]

theorem get?_insert (m : OrderMap K V) (k a : K) (v : V) :
    (m.insert k v).get? a = if a = k then some v else m.get? a := by
  by_cases h : k ∈ m.keys
  · rw [insert,dif_pos h,get?_mapVals]
    obtain ⟨w,hw⟩ := Option.isSome_iff_exists.mp (contains_iff.mpr h)
    by_cases e : a = k
    · subst e; simp [hw]
    · simp [e]
  · have hk := insert_of_not_mem v h
    have hn : m.get? k = none := get?_eq_none.mpr h
    rw [get?] at hn ⊢
    rw [hk,List.find?_append]
    by_cases e : a = k
    · subst e
      simp only [Option.map_eq_none_iff] at hn
      simp [hn]
    · simp [get?,Ne.symm e,e]

theorem get?_remove (m : OrderMap K V) (k a : K) :
    (m.remove k).get? a = if a = k then none else m.get? a := by
  by_cases e : a = k
  · subst e
    simp [get?_eq_none,keys,remove]
  · rw [if_neg e]
    cases h : m.get? a with
    | none =>
      rw [get?_eq_none] at h ⊢
      contrapose! h
      simp only [keys,remove,List.mem_map,List.mem_filter] at h ⊢
      obtain ⟨x,⟨hx,-⟩,rfl⟩ := h
      exact ⟨x,hx,rfl⟩
    | some v =>
      refine mem_entries.mp (List.mem_filter.mpr ⟨mem_entries.mpr h,by simpa using e⟩)

theorem filter_ne_eq_self {l : List (K × V)} {k : K} (h : k ∉ l.map Prod.fst) :
    l.filter (fun e => e.1 ≠ k) = l := by
  apply List.filter_eq_self.mpr
  rintro ⟨a,w⟩ hw
  simp only [ne_eq,decide_not,Bool.not_eq_true',decide_eq_false_iff_not]
  rintro rfl
  exact h (List.mem_map.mpr ⟨(a,w),hw,rfl⟩)

theorem remove_insert {m : OrderMap K V} {k : K} (v : V) (h : k ∉ m.keys) :
    (m.insert k v).remove k = m := by
  apply ext
  simp only [remove,insert_of_not_mem v h,List.filter_append,List.filter_cons,List.filter_nil]
  have hm := filter_ne_eq_self h
  simp only [ne_eq,decide_not] at hm
  simp [hm]

/-- Set a key at a position, moving the entries from there on down. There is no
result when the position lies past the end. -/
def shiftInsert (m : OrderMap K V) (i : ℕ) (k : K) (v : V) : Option (OrderMap K V) :=
  if h : i ≤ (m.remove k).len then
    some ⟨(m.remove k).entries.insertIdx i (k,v),by
      have hk : k ∉ (m.remove k).keys := by simp [keys,remove]
      exact ((List.perm_insertIdx (k,v) _ h).map Prod.fst).nodup_iff.mpr
        (List.nodup_cons.mpr ⟨hk,(m.remove k).nodup⟩)⟩
  else none

theorem insertIdx_filter {l : List (K × V)} {k : K} {v : V} (hl : (l.map Prod.fst).Nodup)
    (hm : (k,v) ∈ l) :
    l.findIdx (fun e => e.1 = k) ≤ (l.filter (fun e => e.1 ≠ k)).length ∧
    (l.filter (fun e => e.1 ≠ k)).insertIdx (l.findIdx (fun e => e.1 = k)) (k,v) = l := by
  induction l with
  | nil => simp at hm
  | cons e l ih =>
    obtain ⟨a,w⟩ := e
    simp only [List.map_cons,List.nodup_cons] at hl
    by_cases h : a = k
    · subst h
      have hv : w = v := by
        rcases List.mem_cons.mp hm with h | h
        · exact (Prod.mk.inj h).2.symm
        · exact absurd (List.mem_map_of_mem h) hl.1
      subst hv
      have hf := filter_ne_eq_self hl.1
      simp only [ne_eq,decide_not] at hf
      simp [List.findIdx_cons,hf]
    · have hm' : (k,v) ∈ l := by
        rcases List.mem_cons.mp hm with h' | h'
        · exact absurd (Prod.mk.inj h').1.symm h
        · exact h'
      obtain ⟨h₁,h₂⟩ := ih hl.2 hm'
      simp only [ne_eq,decide_not] at h₁ h₂
      simp [List.findIdx_cons,h,h₁,h₂]

theorem shiftInsert_remove {m : OrderMap K V} {k : K} {v : V} {i : ℕ}
    (h : m.getFull k = some (i,v)) : (m.remove k).shiftInsert i k v = some m := by
  obtain ⟨w,hw,he⟩ := Option.map_eq_some_iff.mp h
  obtain ⟨rfl,rfl⟩ := Prod.mk.inj he
  have hr : (m.remove k).remove k = m.remove k := ext (by simp [remove])
  obtain ⟨h₁,h₂⟩ := insertIdx_filter m.nodup (mem_entries.mpr hw)
  simp only [shiftInsert,hr]
  exact (dif_pos (show _ ≤ (m.remove k).len from h₁)).trans (congrArg some (ext h₂))

theorem getFull_get? {m : OrderMap K V} {k : K} {v : V} {i : ℕ} (h : m.getFull k = some (i,v)) :
    m.get? k = some v := by
  obtain ⟨w,hw,he⟩ := Option.map_eq_some_iff.mp h
  rw [hw,(Prod.mk.inj he).2]

theorem getFull_of_get? {m : OrderMap K V} {k : K} {v : V} (h : m.get? k = some v) :
    ∃ i, m.getFull k = some (i,v) :=
  ⟨m.entries.findIdx (fun e => e.1 = k),by simp [getFull,h]⟩

theorem get?_filter {m m' : OrderMap K V} {f : K × V → Bool} {k : K} {v : V}
    (hf : m'.entries = m.entries.filter f) : m'.get? k = some v ↔ m.get? k = some v ∧ f (k,v) = true := by
  rw [← mem_entries,← mem_entries,hf,List.mem_filter]

end OrderMap
end Lib
