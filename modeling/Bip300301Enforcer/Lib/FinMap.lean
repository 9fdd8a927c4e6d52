import Bip300301Enforcer.Lib.Fallible
import Std.Data.ExtTreeMap
import Mathlib.Algebra.BigOperators.Group.List.Basic
import Mathlib.Algebra.Ring.Nat
import Mathlib.Data.List.Nodup

/-! Finite maps that are iterated in the order of their keys. Two maps with the
same lookups are equal, so a table can be compared with what it was before. -/
namespace Lib
open Std

def FinMap (K V : Type) [Ord K] : Type := ExtTreeMap K V compare

namespace FinMap

variable {K V : Type} [Ord K] [TransOrd K]

def empty : FinMap K V := (∅ : ExtTreeMap K V compare)

def get? (m : FinMap K V) (k : K) : Option V := (show ExtTreeMap K V compare from m)[k]?

def contains (m : FinMap K V) (k : K) : Bool := (m.get? k).isSome

def insert (m : FinMap K V) (k : K) (v : V) : FinMap K V := ExtTreeMap.insert m k v

def erase (m : FinMap K V) (k : K) : FinMap K V := ExtTreeMap.erase m k

def filter (m : FinMap K V) (p : K → V → Bool) : FinMap K V := ExtTreeMap.filter p m

def toList (m : FinMap K V) : List (K × V) := ExtTreeMap.toList m

def keys (m : FinMap K V) : List K := m.toList.map Prod.fst

def isEmpty (m : FinMap K V) : Bool := m.toList.isEmpty

def insertAll (m : FinMap K V) (l : List (K × V)) : FinMap K V :=
  l.foldl (fun m e => m.insert e.1 e.2) m

def eraseAll (m : FinMap K V) (l : List K) : FinMap K V := l.foldl erase m

def sumBy (m : FinMap K V) (f : K → V → ℕ) : ℕ := (m.toList.map (fun e => f e.1 e.2)).sum

@[simp] theorem get?_empty (k : K) : (empty : FinMap K V).get? k = none :=
  ExtTreeMap.getElem?_empty

theorem contains_iff (m : FinMap K V) (k : K) : m.contains k = true ↔ ∃ v, m.get? k = some v := by
  simp [contains,Option.isSome_iff_exists]

theorem contains_false_iff (m : FinMap K V) (k : K) : m.contains k = false ↔ m.get? k = none := by
  simp [contains]

@[simp] theorem contains_empty (k : K) : (empty : FinMap K V).contains k = false := by
  simp [contains]

theorem nodup_keys (m : FinMap K V) : m.keys.Nodup := by
  have h : (ExtTreeMap.keys m).Nodup := ExtTreeMap.nodup_keys
  have e : m.keys = ExtTreeMap.keys m := ExtTreeMap.map_fst_toList_eq_keys
  rwa [e]

theorem pairwise_toList (m : FinMap K V) {R : K × V → K × V → Prop}
    (h : ∀ e ∈ m.toList, ∀ e' ∈ m.toList, e.1 ≠ e'.1 → R e e') : m.toList.Pairwise R := by
  have hnodup := nodup_keys m
  rw [keys,List.Nodup,List.pairwise_map] at hnodup
  exact hnodup.imp_of_mem (fun {e e'} he he' hne => h e he e' he' hne)

theorem nodup_toList (m : FinMap K V) : m.toList.Nodup :=
  List.Nodup.of_map Prod.fst (nodup_keys m)

theorem sum_map_filter {α : Type} (l : List α) (g : α → ℕ) :
    ((l.filter (fun a => g a ≠ 0)).map g).sum = (l.map g).sum := by
  induction l with
  | nil => rfl
  | cons a l ih =>
    by_cases hz : g a = 0
    · simp [hz,← ih]
    · simp [hz,← ih]

variable [LawfulEqOrd K]

instance [DecidableEq V] : DecidableEq (FinMap K V) :=
  inferInstanceAs (DecidableEq (ExtTreeMap K V compare))

theorem ext {m m' : FinMap K V} (h : ∀ k, m.get? k = m'.get? k) : m = m' :=
  ExtTreeMap.ext_getElem? h

theorem get?_filter (m : FinMap K V) (p : K → V → Bool) (k : K) :
    (m.filter p).get? k = (m.get? k).filter (p k) :=
  ExtTreeMap.getElem?_filter'

theorem mem_toList {m : FinMap K V} {k : K} {v : V} : (k,v) ∈ m.toList ↔ m.get? k = some v :=
  ExtTreeMap.mem_toList_iff_getElem?_eq_some

theorem mem_values {m : FinMap K V} {v : V} :
    v ∈ m.toList.map Prod.snd ↔ ∃ k, m.get? k = some v := by
  simp only [List.mem_map,Prod.exists,exists_eq_right]
  exact exists_congr (fun _ => mem_toList)

theorem mem_keys {m : FinMap K V} {k : K} : k ∈ m.keys ↔ m.contains k = true := by
  rw [contains_iff]
  constructor
  · intro h
    obtain ⟨⟨_,v⟩,hm,rfl⟩ := List.mem_map.mp h
    exact ⟨v,mem_toList.mp hm⟩
  · rintro ⟨v,hv⟩
    exact List.mem_map.mpr ⟨(k,v),mem_toList.mpr hv,rfl⟩

theorem not_mem_keys {m : FinMap K V} {k : K} : k ∉ m.keys ↔ m.get? k = none := by
  rw [mem_keys,Bool.not_eq_true,contains_false_iff]

theorem keys_eq {m m' : FinMap K V} (h : ∀ k, m.contains k = m'.contains k) : m.keys = m'.keys := by
  have e : ∀ m : FinMap K V, m.keys = ExtTreeMap.keys m := fun m =>
    ExtTreeMap.map_fst_toList_eq_keys
  have hperm : m.keys.Perm m'.keys := by
    rw [List.perm_ext_iff_of_nodup (nodup_keys m) (nodup_keys m')]
    intro k
    rw [mem_keys,mem_keys,h k]
  rw [e,e] at hperm ⊢
  exact hperm.eq_of_pairwise (fun a b _ _ hab hba => by
    rw [OrientedCmp.gt_of_lt hab] at hba
    cases hba) ExtTreeMap.ordered_keys ExtTreeMap.ordered_keys

theorem isEmpty_iff (m : FinMap K V) : m.isEmpty = true ↔ m = empty := by
  constructor
  · intro h
    have hnil : m.toList = [] := List.isEmpty_iff.mp h
    apply ext
    intro k
    cases hk : m.get? k with
    | none => simp
    | some v => simpa [hnil] using mem_toList.mpr hk
  · rintro rfl
    have hnil : (empty : FinMap K V).toList = [] := by
      apply List.eq_nil_iff_forall_not_mem.mpr
      rintro ⟨k,v⟩ h
      simpa using mem_toList.mp h
    simp [isEmpty,hnil]

@[simp] theorem toList_empty : (empty : FinMap K V).toList = [] := by
  apply List.eq_nil_iff_forall_not_mem.mpr
  rintro ⟨k,v⟩ h
  simpa using mem_toList.mp h

@[simp] theorem sumBy_empty (f : K → V → ℕ) : (empty : FinMap K V).sumBy f = 0 := by
  simp [sumBy]

theorem sumBy_congr {m m' : FinMap K V} (f : K → V → ℕ)
    (h : ∀ k v, f k v ≠ 0 → (m.get? k = some v ↔ m'.get? k = some v)) : m.sumBy f = m'.sumBy f := by
  have hperm : (m.toList.filter (fun e => f e.1 e.2 ≠ 0)).Perm
      (m'.toList.filter (fun e => f e.1 e.2 ≠ 0)) := by
    refine (List.perm_ext_iff_of_nodup ((nodup_toList m).filter _)
      ((nodup_toList m').filter _)).mpr ?_
    rintro ⟨k,v⟩
    simp only [List.mem_filter,mem_toList,decide_eq_true_eq]
    exact and_congr_left (h k v)
  rw [sumBy,sumBy,← sum_map_filter m.toList,← sum_map_filter m'.toList]
  exact (hperm.map _).sum_eq

variable [DecidableEq K]

theorem get?_insert (m : FinMap K V) (k a : K) (v : V) :
    (m.insert k v).get? a = if k = a then some v else m.get? a := by
  refine (ExtTreeMap.getElem?_insert (t := m)).trans ?_
  simp only [Std.compare_eq_iff_eq]
  rfl

theorem get?_erase (m : FinMap K V) (k a : K) :
    (m.erase k).get? a = if k = a then none else m.get? a := by
  refine (ExtTreeMap.getElem?_erase (t := m)).trans ?_
  simp only [Std.compare_eq_iff_eq]
  rfl

@[simp] theorem get?_insert_self (m : FinMap K V) (k : K) (v : V) :
    (m.insert k v).get? k = some v := by simp [get?_insert]

theorem get?_insert_ne (m : FinMap K V) {k a : K} (v : V) (h : k ≠ a) :
    (m.insert k v).get? a = m.get? a := by simp [get?_insert,h]

@[simp] theorem get?_erase_self (m : FinMap K V) (k : K) : (m.erase k).get? k = none := by
  simp [get?_erase]

theorem get?_erase_ne (m : FinMap K V) {k a : K} (h : k ≠ a) :
    (m.erase k).get? a = m.get? a := by simp [get?_erase,h]

theorem contains_insert (m : FinMap K V) (k a : K) (v : V) :
    (m.insert k v).contains a = (decide (k = a) || m.contains a) := by
  by_cases h : k = a <;> simp [contains,get?_insert,h]

theorem contains_erase (m : FinMap K V) (k a : K) :
    (m.erase k).contains a = (!decide (k = a) && m.contains a) := by
  by_cases h : k = a <;> simp [contains,get?_erase,h]

theorem insert_of_get? {m : FinMap K V} {k : K} {v : V} (h : m.get? k = some v) :
    m.insert k v = m := by
  apply ext
  intro a
  by_cases e : k = a
  · subst e; simp [h]
  · simp [get?_insert,e]

@[simp] theorem insert_insert (m : FinMap K V) (k : K) (v w : V) :
    (m.insert k v).insert k w = m.insert k w := by
  apply ext
  intro a
  by_cases e : k = a <;> simp [get?_insert,e]

theorem insert_comm (m : FinMap K V) {k a : K} (v w : V) (h : k ≠ a) :
    (m.insert k v).insert a w = (m.insert a w).insert k v := by
  apply ext
  intro x
  by_cases e : k = x
  · subst e; simp [get?_insert,h.symm]
  · by_cases e' : a = x <;> simp [get?_insert,e,e']

theorem erase_insert {m : FinMap K V} {k : K} (v : V) (h : m.get? k = none) :
    (m.insert k v).erase k = m := by
  apply ext
  intro a
  by_cases e : k = a
  · subst e; simp [h]
  · simp [get?_erase,get?_insert,e]

theorem insert_erase {m : FinMap K V} {k : K} {v : V} (h : m.get? k = some v) :
    (m.erase k).insert k v = m := by
  apply ext
  intro a
  by_cases e : k = a
  · subst e; simp [h]
  · simp [get?_erase,get?_insert,e]

theorem get?_insertAll (l : List (K × V)) (m : FinMap K V) (hl : (l.map Prod.fst).Nodup) (k : K) :
    (m.insertAll l).get? k =
      match l.find? (fun e => e.1 = k) with
      | some e => some e.2
      | none => m.get? k := by
  induction l generalizing m with
  | nil => rfl
  | cons e l ih =>
    obtain ⟨a,v⟩ := e
    simp only [List.map_cons,List.nodup_cons] at hl
    change (insertAll (m.insert a v) l).get? k = _
    rw [ih (m.insert a v) hl.2,List.find?_cons]
    by_cases h : a = k
    · subst h
      have hn : l.find? (fun e => e.1 = a) = none := by
        apply List.find?_eq_none.mpr
        intro e he hk
        exact hl.1 (List.mem_map.mpr ⟨e,he,by simpa using hk⟩)
      simp [hn]
    · simp [h,get?_insert]

theorem get?_eraseAll (l : List K) (m : FinMap K V) (k : K) :
    (m.eraseAll l).get? k = if k ∈ l then none else m.get? k := by
  induction l generalizing m with
  | nil => rfl
  | cons a l ih =>
    change (eraseAll (m.erase a) l).get? k = _
    rw [ih (m.erase a),get?_erase]
    by_cases h : k ∈ l
    · simp [h]
    · by_cases e : a = k
      · simp [e]
      · simp [h,e,Ne.symm e]

theorem insertAll_eraseAll {m part : FinMap K V}
    (h : ∀ k v, part.get? k = some v → m.get? k = some v) :
    (m.eraseAll part.keys).insertAll part.toList = m := by
  apply ext
  intro k
  rw [get?_insertAll _ _ (nodup_keys part)]
  cases hf : part.toList.find? (fun e => e.1 = k) with
  | some e =>
    obtain ⟨a,v⟩ := e
    have ha : a = k := by simpa using List.find?_some hf
    subst ha
    exact (h a v (mem_toList.mp (List.mem_of_find?_eq_some hf))).symm
  | none =>
    have hk : k ∉ part.keys := by
      intro hk
      obtain ⟨e,he,rfl⟩ := List.mem_map.mp hk
      simpa using List.find?_eq_none.mp hf e he
    simp [get?_eraseAll,hk]

theorem get?_insertAll_toList (m part : FinMap K V) (k : K) :
    (m.insertAll part.toList).get? k = (part.get? k).or (m.get? k) := by
  rw [get?_insertAll _ _ (nodup_keys part)]
  cases hf : part.toList.find? (fun e => e.1 = k) with
  | some e =>
    obtain ⟨a,v⟩ := e
    have ha : a = k := by simpa using List.find?_some hf
    subst ha
    simp [mem_toList.mp (List.mem_of_find?_eq_some hf)]
  | none =>
    have hk : part.get? k = none := by
      cases hp : part.get? k with
      | none => rfl
      | some v =>
        have := List.find?_eq_none.mp hf (k,v) (mem_toList.mpr hp)
        simp at this
    simp [hk]

section Sum

theorem toList_insert_perm {m : FinMap K V} {k : K} (v : V) (h : m.get? k = none) :
    (m.insert k v).toList.Perm ((k,v)::m.toList) := by
  have hnot : (k,v) ∉ m.toList := by
    rw [mem_toList,h]
    simp
  refine (List.perm_ext_iff_of_nodup (nodup_toList _)
    (List.nodup_cons.mpr ⟨hnot,nodup_toList m⟩)).mpr ?_
  rintro ⟨a,w⟩
  rw [mem_toList,get?_insert,List.mem_cons,mem_toList]
  by_cases e : k = a
  · subst e
    simp [h,eq_comm]
  · simp [e,Ne.symm e]

@[simp] theorem toList_singleton (k : K) (v : V) :
    ((empty : FinMap K V).insert k v).toList = [(k,v)] := by
  have hp := toList_insert_perm v (get?_empty (V := V) k)
  rw [toList_empty] at hp
  exact List.perm_singleton.mp hp

theorem sumBy_insert {m : FinMap K V} {k : K} (v : V) (f : K → V → ℕ) (h : m.get? k = none) :
    (m.insert k v).sumBy f = f k v+m.sumBy f := by
  rw [sumBy,((toList_insert_perm v h).map _).sum_eq]
  rfl

theorem sumBy_erase {m : FinMap K V} {k : K} {v : V} (f : K → V → ℕ) (h : m.get? k = some v) :
    m.sumBy f = f k v+(m.erase k).sumBy f := by
  have hs := sumBy_insert v f (m := m.erase k) (get?_erase_self m k)
  rwa [insert_erase h] at hs

theorem sumBy_replace {m : FinMap K V} {k : K} {v : V} (w : V) (f : K → V → ℕ)
    (h : m.get? k = some v) : (m.insert k w).sumBy f+f k v = m.sumBy f+f k w := by
  have herase : (m.erase k).insert k w = m.insert k w := by
    rw [← insert_insert (m.erase k) k v w,insert_erase h]
  rw [← herase,sumBy_insert w f (get?_erase_self m k),sumBy_erase f h]
  omega

theorem sumBy_eraseAll {m : FinMap K V} (f : K → V → ℕ) (l : List K) (hl : l.Nodup)
    (g : K → ℕ) (h : ∀ k ∈ l, ∃ v, m.get? k = some v ∧ f k v = g k) :
    m.sumBy f = (l.map g).sum+(m.eraseAll l).sumBy f := by
  induction l generalizing m with
  | nil => simp [eraseAll]
  | cons k l ih =>
    rw [List.nodup_cons] at hl
    obtain ⟨v,hv,hg⟩ := h k (List.mem_cons_self ..)
    have hrest : ∀ a ∈ l, ∃ v, (m.erase k).get? a = some v ∧ f a v = g a := by
      intro a ha
      have hne : k ≠ a := by rintro rfl; exact hl.1 ha
      rw [get?_erase_ne _ hne]
      exact h a (List.mem_cons_of_mem _ ha)
    have herase : m.eraseAll (k::l) = (m.erase k).eraseAll l := rfl
    rw [sumBy_erase f hv,ih hl.2 hrest,hg,herase,List.map_cons,List.sum_cons]
    omega

end Sum

section UpdateEach

variable {A ε : Type}

/-- A loop that changes the value of each listed key. -/
def updateEach (missing : ε) (f : K → A → V → Except ε V) (l : List (K × A)) (m : FinMap K V) :
    Except ε (FinMap K V) :=
  l.foldlM (fun m e => do
    let v ← Fallible.require (m.get? e.1) missing
    let w ← f e.1 e.2 v
    return m.insert e.1 w) m

omit [LawfulEqOrd K] [DecidableEq K] in
theorem updateEach_cons {missing : ε} {f : K → A → V → Except ε V} {k : K} {a : A}
    {l : List (K × A)} {m m' : FinMap K V} :
    updateEach missing f ((k,a)::l) m = .ok m' ↔
      ∃ v w, m.get? k = some v ∧ f k a v = .ok w ∧ updateEach missing f l (m.insert k w) = .ok m' := by
  simp only [updateEach,List.foldlM_cons,Fallible.bind_ok,Fallible.require_ok,Fallible.pure_ok]
  constructor
  · rintro ⟨_,⟨v,hv,w,hw,rfl⟩,h⟩
    exact ⟨v,w,hv,hw,h⟩
  · rintro ⟨v,w,hv,hw,h⟩
    exact ⟨_,⟨v,hv,w,hw,rfl⟩,h⟩

/-- The loop changes the listed keys, each one on its own, and no other key. -/
theorem updateEach_get? {missing : ε} {f : K → A → V → Except ε V} {l : List (K × A)}
    (hl : (l.map Prod.fst).Nodup) {m m' : FinMap K V} (h : updateEach missing f l m = .ok m') :
    (∀ k a, (k,a) ∈ l → ∃ v w, m.get? k = some v ∧ f k a v = .ok w ∧ m'.get? k = some w) ∧
    ∀ k, k ∉ l.map Prod.fst → m'.get? k = m.get? k := by
  induction l generalizing m with
  | nil =>
    simp only [updateEach,List.foldlM_nil,Fallible.pure_ok] at h
    subst h
    simp
  | cons e l ih =>
    obtain ⟨k₀,a₀⟩ := e
    simp only [List.map_cons,List.nodup_cons] at hl
    obtain ⟨v,w,hv,hw,h⟩ := updateEach_cons.mp h
    obtain ⟨ih₁,ih₂⟩ := ih hl.2 h
    constructor
    · intro k a hm
      rcases List.mem_cons.mp hm with he | hm
      · obtain ⟨rfl,rfl⟩ := Prod.mk.inj he
        exact ⟨v,w,hv,hw,by rw [ih₂ k hl.1,get?_insert_self]⟩
      · have hne : k₀ ≠ k := by
          rintro rfl
          exact hl.1 (List.mem_map.mpr ⟨_,hm,rfl⟩)
        obtain ⟨v',w',h₁,h₂,h₃⟩ := ih₁ k a hm
        rw [get?_insert_ne _ _ hne] at h₁
        exact ⟨v',w',h₁,h₂,h₃⟩
    · intro k hk
      simp only [List.map_cons,List.mem_cons,not_or] at hk
      rw [ih₂ k hk.2,get?_insert_ne _ _ (Ne.symm hk.1)]

theorem updateEach_succeeds {missing : ε} {f : K → A → V → Except ε V} {l : List (K × A)}
    (hl : (l.map Prod.fst).Nodup) {m : FinMap K V}
    (h : ∀ k a, (k,a) ∈ l → ∃ v w, m.get? k = some v ∧ f k a v = .ok w) :
    ∃ m', updateEach missing f l m = .ok m' := by
  induction l generalizing m with
  | nil => exact ⟨m,rfl⟩
  | cons e l ih =>
    obtain ⟨k₀,a₀⟩ := e
    simp only [List.map_cons,List.nodup_cons] at hl
    obtain ⟨v,w,hv,hw⟩ := h k₀ a₀ (List.mem_cons_self ..)
    have hrest : ∀ k a, (k,a) ∈ l → ∃ v w', (m.insert k₀ w).get? k = some v ∧ f k a v = .ok w' := by
      intro k a hm
      have hne : k₀ ≠ k := by
        rintro rfl
        exact hl.1 (List.mem_map.mpr ⟨_,hm,rfl⟩)
      rw [get?_insert_ne _ _ hne]
      exact h k a (List.mem_cons_of_mem _ hm)
    obtain ⟨m',hm'⟩ := ih hl.2 hrest
    exact ⟨m',updateEach_cons.mpr ⟨v,w,hv,hw,hm'⟩⟩

/-- A loop whose steps take back the steps of another loop takes that loop back. -/
theorem updateEach_inverse {missing : ε} {f g : K → A → V → Except ε V} {l : List (K × A)}
    (hl : (l.map Prod.fst).Nodup) {m m' : FinMap K V} (h : updateEach missing f l m = .ok m')
    (inv : ∀ k a v w, (k,a) ∈ l → m.get? k = some v → f k a v = .ok w → g k a w = .ok v) :
    updateEach missing g l m' = .ok m := by
  obtain ⟨h₁,h₂⟩ := updateEach_get? hl h
  have hs : ∀ k a, (k,a) ∈ l → ∃ v w, m'.get? k = some v ∧ g k a v = .ok w := by
    intro k a hm
    obtain ⟨v,w,hv,hw,hw'⟩ := h₁ k a hm
    exact ⟨w,v,hw',inv k a v w hm hv hw⟩
  obtain ⟨m'',h''⟩ := updateEach_succeeds hl hs
  obtain ⟨h₃,h₄⟩ := updateEach_get? hl h''
  have he : m'' = m := by
    apply ext
    intro k
    by_cases hk : k ∈ l.map Prod.fst
    · obtain ⟨⟨_,a⟩,hm,rfl⟩ := List.mem_map.mp hk
      obtain ⟨v,w,hv,hw,hw'⟩ := h₁ _ a hm
      obtain ⟨w₁,v₁,hw₁,hv₁,hv₁'⟩ := h₃ _ a hm
      rw [hw'] at hw₁
      obtain rfl := Option.some.inj hw₁
      rw [inv _ a v w hm hv hw] at hv₁
      obtain rfl := Except.ok.inj hv₁
      rw [hv₁',hv]
    · rw [h₄ k hk,h₂ k hk]
  rw [h'',he]

end UpdateEach

end FinMap
end Lib
