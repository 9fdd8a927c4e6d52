import Bip300301Enforcer.Lib.Walk
import Bip300301Enforcer.Reach

/-! The ancestors of a block in the stored headers, and the last common ancestor of two
blocks. -/
namespace Bip300301Enforcer
open Lib Chain Walk

variable [Bitcoin]

namespace BlockHashDbs

def parent? (dbs : BlockHashDbs) (blockHash : BlockHash) : Option BlockHash :=
  (dbs.header.get? blockHash).map Header.prevBlockhash

/-- The hashes of the stored ancestor headers, the block itself included. A walk without
a loop has no more steps than there are headers. -/
def ancestorHeaders (dbs : BlockHashDbs) (blockHash : BlockHash) : List BlockHash :=
  points dbs.parent? dbs.header.toList.length blockHash

def skipAncestors (blockHash : BlockHash) (height n : ℕ) (l : List BlockHash) :
    Res (List BlockHash) :=
  if l.length < n then .error (.missingAncestor blockHash l.length height) else .ok (l.drop n)

/-- Compare the ancestors of two blocks from some height down to zero. -/
def commonAncestor (blockHash0 blockHash1 : BlockHash) (height0 height1 : ℕ) :
    ℕ → List BlockHash → List BlockHash → Res BlockHash
  | 0, _, _ => .ok allZeros
  | n+1, [], _ => .error (.missingAncestor blockHash0 (height0-n) height0)
  | n+1, _::_, [] => .error (.missingAncestor blockHash1 (height1-n) height1)
  | n+1, ancestor0::ancestors0, ancestor1::ancestors1 =>
    if ancestor0 = ancestor1 then .ok ancestor0
    else commonAncestor blockHash0 blockHash1 height0 height1 n ancestors0 ancestors1

def lastCommonAncestor (dbs : BlockHashDbs) (blockHash0 blockHash1 : BlockHash) : Res BlockHash :=
  if blockHash0 = blockHash1 then .ok blockHash0
  else if blockHash0 = allZeros ∨ blockHash1 = allZeros then .ok allZeros
  else do
    let height0 ← Database.get dbs.height .height blockHash0
    let height1 ← Database.get dbs.height .height blockHash1
    let ancestors1 ← skipAncestors blockHash1 height1 (height1-height0)
      (dbs.ancestorHeaders blockHash1)
    let ancestors0 ← skipAncestors blockHash0 height0 (height0-height1)
      (dbs.ancestorHeaders blockHash0)
    commonAncestor blockHash0 blockHash1 height0 height1 (min height0 height1+1) ancestors0 ancestors1

def AncestorClosed (dbs : BlockHashDbs) : Prop :=
  ∀ k hd, dbs.header.get? k = some hd → hd.prevBlockhash ≠ allZeros →
    ∃ hd', dbs.header.get? hd.prevBlockhash = some hd'

instance (dbs : BlockHashDbs) : Decidable dbs.AncestorClosed :=
  decidable_of_iff (∀ e ∈ dbs.header.toList, e.2.prevBlockhash ≠ allZeros →
      dbs.header.contains e.2.prevBlockhash = true)
    ⟨fun hall k hd hk hne => (FinMap.contains_iff _ _).mp (hall (k,hd) (FinMap.mem_toList.mpr hk) hne),
      fun hc e he hne => (FinMap.contains_iff _ _).mpr (hc e.1 e.2 (FinMap.mem_toList.mp he) hne)⟩

variable {dbs : BlockHashDbs} {a b : BlockHash} {l l' p p' t : List BlockHash} {c : Chain}

theorem Headers.parent?_zeros (hh : dbs.Headers) : dbs.parent? allZeros = none := by
  unfold parent?
  cases hz : dbs.header.get? allZeros with
  | none => rfl
  | some hd => exact absurd (hh.hash _ hd hz) hd.blockHash_ne

theorem Headers.ranked (hh : dbs.Headers) : Ranked dbs.parent? allZeros dbs.height.get? := by
  intro k k' hk
  obtain ⟨hd,hhd,rfl⟩ := Option.map_eq_some_iff.mp hk
  obtain ⟨n,hn,h₁,h₂⟩ := hh.height k hd hhd
  exact ⟨n,hn,h₁,fun hz => ⟨(h₂ hz).2,(h₂ hz).1⟩⟩

theorem Headers.exists_path_of_closed (hh : dbs.Headers) {S : BlockHash → Prop}
    (hS : ∀ k, S k → ∃ hd, dbs.header.get? k = some hd ∧
      (hd.prevBlockhash ≠ allZeros → S hd.prevBlockhash)) (ha : S a) :
    ∃ l, Path dbs.parent? a l allZeros ∧ ∀ k ∈ l, S k := by
  obtain ⟨hd,hk,-⟩ := hS a ha
  obtain ⟨n,hn,-⟩ := hh.height a hd hk
  induction n using Nat.strong_induction_on generalizing a hd with
  | _ n ih =>
    obtain ⟨hd',hk',hnext⟩ := hS a ha
    obtain rfl := Option.some.inj (hk'.symm.trans hk)
    obtain ⟨n',hn',-,hpos⟩ := hh.height a hd' hk
    obtain rfl := Option.some.inj (hn.symm.trans hn')
    have hparent : dbs.parent? a = some hd'.prevBlockhash := by simp [parent?,hk]
    by_cases hz : hd'.prevBlockhash = allZeros
    · exact ⟨[a],⟨rfl,_,hparent,hz⟩,by simpa using ha⟩
    · obtain ⟨hd₂,hhd₂,-⟩ := hS _ (hnext hz)
      obtain ⟨hlt,hprev⟩ := hpos hz
      obtain ⟨l,hl,hall⟩ := ih (n-1) (by omega) (hnext hz) hd₂ hhd₂ hprev
      exact ⟨a::l,⟨rfl,_,hparent,hl⟩,List.forall_mem_cons.mpr ⟨ha,hall⟩⟩

theorem Headers.exists_path (hh : dbs.Headers) (hclosed : dbs.AncestorClosed) {hd : Header}
    (hk : dbs.header.get? a = some hd) : ∃ l, Path dbs.parent? a l allZeros := by
  obtain ⟨l,hl,-⟩ := hh.exists_path_of_closed (S := fun k => ∃ hd, dbs.header.get? k = some hd)
    (fun k ⟨hd,hk⟩ => ⟨hd,hk,hclosed k hd hk⟩) ⟨hd,hk⟩
  exact ⟨l,hl⟩

omit [Bitcoin] in
theorem mem_keys_of_path (hp : Path dbs.parent? a p b) : ∀ x ∈ p, x ∈ dbs.header.keys := by
  induction p generalizing a with
  | nil => simp
  | cons y p ih =>
    obtain ⟨rfl,b,hb,hp⟩ := hp
    intro x hx
    rcases List.mem_cons.mp hx with rfl | hx
    · obtain ⟨hd,hhd,-⟩ := Option.map_eq_some_iff.mp hb
      exact FinMap.mem_keys.mpr ((FinMap.contains_iff _ _).mpr ⟨hd,hhd⟩)
    · exact ih hp x hx

theorem Headers.path_length_le (hh : dbs.Headers) (hp : Path dbs.parent? a p b) :
    p.length ≤ dbs.header.toList.length := by
  have hnodup := nodup_of_ranked hh.ranked hh.parent?_zeros hp
  have hlen := (List.subperm_of_subset hnodup (mem_keys_of_path hp)).length_le
  simpa [FinMap.keys] using hlen

theorem Headers.ancestorHeaders_eq (hh : dbs.Headers) (hp : Path dbs.parent? a l allZeros) :
    dbs.ancestorHeaders a = l :=
  points_of_path hp hh.parent?_zeros (hh.path_length_le hp)

theorem linked_path (hl : dbs.Linked c) :
    Path dbs.parent? c.parentHash (c.map Block.blockHash) allZeros := by
  induction c with
  | nil => rfl
  | cons b c ih =>
    refine ⟨rfl,parentHash c,?_,ih hl.2.2⟩
    simp [parent?,hl.1,hl.2.1]

omit [Bitcoin] in
theorem commonAncestor_eq {h₀ h₁ n : ℕ} (hlen : p.length = p'.length) (hn : n = p.length+t.length)
    (hne : ∀ x ∈ p, x ∉ p') :
    commonAncestor a b h₀ h₁ n (p++t) (p'++t) = .ok (t.head?.getD allZeros) := by
  induction p generalizing p' n with
  | nil =>
    obtain rfl := List.eq_nil_of_length_eq_zero hlen.symm
    cases t with
    | nil =>
      subst hn
      rfl
    | cons x t =>
      subst hn
      simp [commonAncestor]
  | cons x p ih =>
    cases p' with
    | nil => simp at hlen
    | cons y p' =>
      have hxy : x ≠ y := by
        rintro rfl
        exact hne x (List.mem_cons_self ..) (List.mem_cons_self ..)
      obtain ⟨n,rfl⟩ : ∃ m, n = m+1 := ⟨p.length+t.length,by rw [hn,List.length_cons]; omega⟩
      simp only [List.cons_append,commonAncestor,if_neg hxy]
      refine ih (by simpa using hlen) (by simp only [List.length_cons] at hn; omega) ?_
      intro z hz hz'
      exact hne z (List.mem_cons_of_mem _ hz) (List.mem_cons_of_mem _ hz')

/-- The last common ancestor is the first block of the part that two ancestries have in
common. -/
theorem Headers.lastCommonAncestor_eq (hh : dbs.Headers) (hp : Path dbs.parent? a l allZeros)
    (hp' : Path dbs.parent? b l' allZeros) (hl : l = p++t) (hl' : l' = p'++t)
    (hne : ∀ x ∈ p, x ∉ l') : dbs.lastCommonAncestor a b = .ok (t.head?.getD allZeros) := by
  have hz := hh.parent?_zeros
  have hnil : ∀ {l : List BlockHash}, Path dbs.parent? allZeros l allZeros → l = [] := by
    intro l hl
    exact path_unique hl hz rfl
  have hstart : ∀ {a : BlockHash} {l : List BlockHash}, Path dbs.parent? a l allZeros →
      l.head?.getD allZeros = a := by
    intro a l hl
    cases l with
    | nil => exact hl.symm
    | cons x l => exact hl.1.symm
  unfold lastCommonAncestor
  by_cases hab : a = b
  · subst hab
    rw [if_pos rfl]
    obtain rfl := path_unique hp hz hp'
    have hpnil : p = [] := by
      refine List.eq_nil_iff_forall_not_mem.mpr (fun x hx => ?_)
      exact hne x hx (by rw [hl]; exact List.mem_append_left _ hx)
    rw [hpnil,List.nil_append] at hl
    rw [← hl,hstart hp]
  rw [if_neg hab]
  by_cases hzero : a = allZeros ∨ b = allZeros
  · rw [if_pos hzero]
    have ht : t = [] := by
      rcases hzero with rfl | rfl
      · have := hnil hp
        rw [hl] at this
        exact (List.append_eq_nil_iff.mp this).2
      · have := hnil hp'
        rw [hl'] at this
        exact (List.append_eq_nil_iff.mp this).2
    rw [ht]
    rfl
  rw [if_neg hzero]
  rw [not_or] at hzero
  have hrank : ∀ {a : BlockHash} {l : List BlockHash}, a ≠ allZeros →
      Path dbs.parent? a l allZeros → ∃ n, l.length = n+1 ∧ dbs.height.get? a = some n := by
    intro a l ha hl
    cases l with
    | nil => exact absurd hl ha
    | cons x l => exact ⟨l.length,rfl,rank_start hh.ranked hz hl⟩
  obtain ⟨n,hn,hga⟩ := hrank hzero.1 hp
  obtain ⟨n',hn',hgb⟩ := hrank hzero.2 hp'
  have hlen : l.length = p.length+t.length := by rw [hl,List.length_append]
  have hlen' : l'.length = p'.length+t.length := by rw [hl',List.length_append]
  have hskip : ∀ (k : BlockHash) (m j : ℕ) (q : List BlockHash), j ≤ q.length →
      skipAncestors k m j q = .ok (q.drop j) := by
    intro k m j q hj
    rw [skipAncestors,if_neg (by omega)]
  simp only [Database.get,hga,hgb,Fallible.require_some,Fallible.ok_bind,hh.ancestorHeaders_eq hp,
    hh.ancestorHeaders_eq hp']
  rw [hskip b n' (n'-n) l' (by omega),Fallible.ok_bind,hskip a n (n-n') l (by omega),
    Fallible.ok_bind,hl,hl',List.drop_append_of_le_length (by omega),
    List.drop_append_of_le_length (by omega)]
  refine commonAncestor_eq ?_ ?_ ?_
  · rw [List.length_drop,List.length_drop]
    omega
  · rw [List.length_drop]
    omega
  · intro x hx hx'
    refine hne x (List.mem_of_mem_drop hx) ?_
    rw [hl']
    exact List.mem_append_left _ (List.mem_of_mem_drop hx')

end BlockHashDbs

end Bip300301Enforcer
