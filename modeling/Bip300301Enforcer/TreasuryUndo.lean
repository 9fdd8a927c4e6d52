import Bip300301Enforcer.DiffUndo

/-! Undoing deposits and withdrawals. The index of the treasury outpoints is
only restored when the new outpoints were not in it, so the tables are compared
up to the index unless the outpoints are known to be new. -/
namespace Bip300301Enforcer
open Lib

namespace ActiveSidechainDbs

def setIndex (dbs : ActiveSidechainDbs) (i : Database OutPoint (SidechainNumber × ℕ × ℕ)) :
    ActiveSidechainDbs := { dbs with ctipOutpointToValueSeq := i }

/-- The same tables, up to the index unless `P` holds. -/
def Like (P : Prop) (dbs' dbs : ActiveSidechainDbs) : Prop :=
  ∃ i, dbs' = dbs.setIndex i ∧ (P → i = dbs.ctipOutpointToValueSeq)

theorem Like.refl (P : Prop) (dbs : ActiveSidechainDbs) : Like P dbs dbs :=
  ⟨dbs.ctipOutpointToValueSeq,rfl,fun _ => rfl⟩

theorem Like.eq {P : Prop} {dbs' dbs : ActiveSidechainDbs} (h : Like P dbs' dbs) (hP : P) :
    dbs' = dbs := by
  obtain ⟨i,rfl,hi⟩ := h
  rw [hi hP]
  rfl

theorem Like.trans {P : Prop} {a b c : ActiveSidechainDbs} (h : Like P a b) (h' : Like P b c) :
    Like P a c := by
  obtain ⟨i,rfl,hi⟩ := h
  obtain ⟨j,rfl,hj⟩ := h'
  exact ⟨i,rfl,fun hP => (hi hP).trans (hj hP)⟩

/-- The ctip of a slot is its last treasury output. -/
def SlotOk (dbs : ActiveSidechainDbs) (s : SidechainNumber) : Prop :=
  dbs.slotSequenceToTreasuryUtxo.get? (s,dbs.count s) = none ∧
  match dbs.count s with
  | 0 => dbs.ctip.get? s = none
  | n+1 => ∃ u, dbs.slotSequenceToTreasuryUtxo.get? (s,n) = some u ∧
      dbs.ctip.get? s = some ⟨u.outpoint,u.totalValue⟩

theorem count_eq_zero {dbs : ActiveSidechainDbs} {s : SidechainNumber} :
    dbs.count s = 0 ↔ dbs.treasuryUtxoCount.get? s = none := by
  unfold count
  cases h : dbs.treasuryUtxoCount.get? s with
  | none => simp
  | some n => simp

theorem count_eq_succ {dbs : ActiveSidechainDbs} {s : SidechainNumber} {n : ℕ}
    (h : dbs.count s = n+1) : dbs.treasuryUtxoCount.get? s = some n.succPNat := by
  unfold count at h
  cases hc : dbs.treasuryUtxoCount.get? s with
  | none => simp [hc] at h
  | some m =>
    rw [hc] at h
    exact congrArg some (PNat.eq (by simpa using h))

section PutCtip

variable (dbs : ActiveSidechainDbs) (s : SidechainNumber) (c : Ctip)

@[simp] theorem putCtip_sidechain : (dbs.putCtip s c).sidechain = dbs.sidechain := rfl

@[simp] theorem putCtip_pendingM6ids : (dbs.putCtip s c).pendingM6ids = dbs.pendingM6ids := rfl

@[simp] theorem putCtip_ctip : (dbs.putCtip s c).ctip = dbs.ctip.insert s c := rfl

@[simp] theorem putCtip_index : (dbs.putCtip s c).ctipOutpointToValueSeq =
    dbs.ctipOutpointToValueSeq.insert c.outpoint (s,c.value,dbs.count s) := rfl

@[simp] theorem putCtip_slotSequence : (dbs.putCtip s c).slotSequenceToTreasuryUtxo =
    dbs.slotSequenceToTreasuryUtxo.insert (s,dbs.count s) ⟨s,c.outpoint,c.value,dbs.treasuryValue s⟩ :=
  rfl

@[simp] theorem putCtip_treasuryUtxoCount : (dbs.putCtip s c).treasuryUtxoCount =
    dbs.treasuryUtxoCount.insert s (dbs.count s).succPNat := rfl

@[simp] theorem count_putCtip_self : (dbs.putCtip s c).count s = dbs.count s+1 := by
  simp [count]

theorem count_putCtip_ne {s' : SidechainNumber} (h : s ≠ s') :
    (dbs.putCtip s c).count s' = dbs.count s' := by
  simp [count,FinMap.get?_insert,h]

end PutCtip

theorem slotOk_putCtip_ne {dbs : ActiveSidechainDbs} {s s' : SidechainNumber} (c : Ctip)
    (h : s ≠ s') (hs : dbs.SlotOk s') : (dbs.putCtip s c).SlotOk s' := by
  have hk (n m : ℕ) : (s,n) ≠ (s',m) := fun he => h (Prod.mk.inj he).1
  unfold SlotOk at hs ⊢
  rw [count_putCtip_ne _ _ _ h]
  simp only [putCtip_slotSequence,putCtip_ctip,FinMap.get?_insert,hk,h,if_false]
  exact hs

theorem deleteCtip_putCtip {dbs : ActiveSidechainDbs} {s : SidechainNumber} (hs : dbs.SlotOk s)
    (c : Ctip) (i : Database OutPoint (SidechainNumber × ℕ × ℕ)) :
    ((dbs.putCtip s c).setIndex i).deleteCtip s = .ok (dbs.setIndex (i.erase c.outpoint)) := by
  obtain ⟨hfree,hs⟩ := hs
  cases hc : dbs.count s with
  | zero =>
    rw [hc] at hs
    simp only [deleteCtip,setIndex,putCtip_ctip,putCtip_treasuryUtxoCount,putCtip_slotSequence,
      Database.get,FinMap.get?_insert_self,Fallible.require_some,Fallible.ok_bind,Nat.natPred_succPNat,
      FinMap.erase_insert _ hfree]
    rw [hc]
    simp only [FinMap.erase_insert _ hs,FinMap.erase_insert _ (count_eq_zero.mp hc)]
    rfl
  | succ n =>
    rw [hc] at hs
    obtain ⟨u,hu,hctip⟩ := hs
    simp only [deleteCtip,setIndex,putCtip_ctip,putCtip_treasuryUtxoCount,putCtip_slotSequence,
      Database.get,FinMap.get?_insert_self,Fallible.require_some,Fallible.ok_bind,Nat.natPred_succPNat,
      FinMap.erase_insert _ hfree]
    rw [hc]
    simp only [hu,Fallible.require_some,Fallible.ok_bind,FinMap.insert_insert,
      FinMap.insert_of_get? hctip,FinMap.insert_of_get? (count_eq_succ hc)]
    rfl

theorem putCtip_comm (dbs : ActiveSidechainDbs) {s s' : SidechainNumber} (c c' : Ctip) (h : s ≠ s')
    (i : Database OutPoint (SidechainNumber × ℕ × ℕ)) :
    ((dbs.putCtip s c).putCtip s' c').setIndex i = ((dbs.putCtip s' c').putCtip s c).setIndex i := by
  have hk (n m : ℕ) : (s,n) ≠ (s',m) := fun he => h (Prod.mk.inj he).1
  simp only [setIndex,putCtip,count,treasuryValue,
    FinMap.get?_insert_ne _ _ h,FinMap.get?_insert_ne _ _ h.symm]
  rw [FinMap.insert_comm _ _ _ h,FinMap.insert_comm _ _ _ h,FinMap.insert_comm _ _ _ (hk _ _)]

def putCtips (dbs : ActiveSidechainDbs) (l : List (SidechainNumber × Ctip)) : ActiveSidechainDbs :=
  l.foldl (fun dbs e => dbs.putCtip e.1 e.2) dbs

theorem putCtips_cons (dbs : ActiveSidechainDbs) (e : SidechainNumber × Ctip)
    (l : List (SidechainNumber × Ctip)) :
    dbs.putCtips (e::l) = (dbs.putCtip e.1 e.2).putCtips l := rfl

theorem putCtips_congr {a b : ActiveSidechainDbs} (l : List (SidechainNumber × Ctip))
    (h : ∀ i, a.setIndex i = b.setIndex i) (i : Database OutPoint (SidechainNumber × ℕ × ℕ)) :
    (a.putCtips l).setIndex i = (b.putCtips l).setIndex i := by
  induction l generalizing a b with
  | nil => exact h i
  | cons e l ih =>
    apply ih
    intro j
    have hj := congrArg (fun d => (d.putCtip e.1 e.2).setIndex j) (h j)
    exact hj

theorem putCtips_putCtip (dbs : ActiveSidechainDbs) (s : SidechainNumber) (c : Ctip)
    (l : List (SidechainNumber × Ctip)) (h : s ∉ l.map Prod.fst)
    (i : Database OutPoint (SidechainNumber × ℕ × ℕ)) :
    ((dbs.putCtip s c).putCtips l).setIndex i = ((dbs.putCtips l).putCtip s c).setIndex i := by
  induction l generalizing dbs with
  | nil => rfl
  | cons e l ih =>
    simp only [List.map_cons,List.mem_cons,not_or] at h
    rw [putCtips_cons,putCtips_cons,← ih (dbs.putCtip e.1 e.2) h.2]
    exact putCtips_congr l (putCtip_comm dbs c e.2 h.1) i

theorem slotOk_putCtips_of_not_mem {dbs : ActiveSidechainDbs} {s : SidechainNumber}
    (l : List (SidechainNumber × Ctip)) (h : s ∉ l.map Prod.fst) (hs : dbs.SlotOk s) :
    (dbs.putCtips l).SlotOk s := by
  induction l generalizing dbs with
  | nil => exact hs
  | cons e l ih =>
    simp only [List.map_cons,List.mem_cons,not_or] at h
    exact ih h.2 (slotOk_putCtip_ne e.2 (Ne.symm h.1) hs)

theorem deleteCtips_putCtips {dbs : ActiveSidechainDbs} (l : List (SidechainNumber × Ctip))
    (hl : (l.map Prod.fst).Nodup) (hs : ∀ s ∈ l.map Prod.fst, dbs.SlotOk s)
    (i : Database OutPoint (SidechainNumber × ℕ × ℕ)) :
    (l.map Prod.fst).foldlM deleteCtip ((dbs.putCtips l).setIndex i) =
      .ok (dbs.setIndex (i.eraseAll (l.map (fun e => e.2.outpoint)))) := by
  induction l generalizing i with
  | nil => rfl
  | cons e l ih =>
    obtain ⟨s,c⟩ := e
    simp only [List.map_cons,List.nodup_cons] at hl
    simp only [List.map_cons,List.mem_cons,forall_eq_or_imp] at hs
    -- the first ctip is deleted as if it had been put last
    have hdel := deleteCtip_putCtip (slotOk_putCtips_of_not_mem l hl.1 hs.1) c i
    rw [List.map_cons,List.foldlM_cons,putCtips_cons,putCtips_putCtip dbs s c l hl.1,hdel,
      Fallible.ok_bind,ih hl.2 hs.2]
    rfl

theorem putCtips_index_get? (dbs : ActiveSidechainDbs) (l : List (SidechainNumber × Ctip))
    {o : OutPoint} (h : o ∉ l.map (fun e => e.2.outpoint)) :
    (dbs.putCtips l).ctipOutpointToValueSeq.get? o = dbs.ctipOutpointToValueSeq.get? o := by
  induction l generalizing dbs with
  | nil => rfl
  | cons e l ih =>
    simp only [List.map_cons,List.mem_cons,not_or] at h
    rw [putCtips_cons,ih _ h.2,putCtip_index,FinMap.get?_insert_ne _ _ (Ne.symm h.1)]

theorem deleteCtip_setPending (dbs : ActiveSidechainDbs) (s : SidechainNumber)
    (p : Database SidechainNumber PendingM6ids) :
    ({ dbs with pendingM6ids := p } : ActiveSidechainDbs).deleteCtip s =
      (dbs.deleteCtip s).map (fun d => { d with pendingM6ids := p }) := by
  simp only [deleteCtip,Database.get]
  cases dbs.ctip.get? s with
  | none => rfl
  | some c =>
    cases dbs.treasuryUtxoCount.get? s with
    | none => rfl
    | some n =>
      simp only [Fallible.require_some,Fallible.ok_bind]
      cases n.natPred with
      | zero => rfl
      | succ k =>
        simp only []
        cases (dbs.slotSequenceToTreasuryUtxo.erase (s,k+1)).get? (s,k) <;> rfl

end ActiveSidechainDbs

namespace Diff
open ActiveSidechainDbs

namespace M5

theorem undoes_apply {P : Prop} {d : M5} {dbs : ActiveSidechainDbs}
    (hs : ∀ s c, d.newCtips.get? s = some c → dbs.SlotOk s)
    (hfresh : P → ∀ s c, d.newCtips.get? s = some c →
      dbs.ctipOutpointToValueSeq.get? c.outpoint = none) :
    Undo.Undoes undo (Like P) d (d.apply dbs) dbs := by
  rintro t ⟨i,rfl,hi⟩
  have hslots : ∀ s ∈ d.newCtips.toList.map Prod.fst, dbs.SlotOk s := by
    intro s hmem
    obtain ⟨⟨_,c⟩,hm,rfl⟩ := List.mem_map.mp hmem
    exact hs _ c (FinMap.mem_toList.mp hm)
  refine ⟨_,deleteCtips_putCtips d.newCtips.toList (FinMap.nodup_keys _) hslots i,_,rfl,?_⟩
  intro hP
  apply FinMap.ext
  intro o
  rw [hi hP,FinMap.get?_eraseAll]
  by_cases ho : o ∈ d.newCtips.toList.map (fun e => e.2.outpoint)
  · obtain ⟨⟨s,c⟩,hm,rfl⟩ := List.mem_map.mp ho
    rw [if_pos ho]
    exact (hfresh hP s c (FinMap.mem_toList.mp hm)).symm
  · rw [if_neg ho]
    exact putCtips_index_get? dbs _ ho

end M5

namespace M6

theorem apply_ok {d : M6} {dbs dbs' : ActiveSidechainDbs} :
    d.apply dbs = .ok dbs' ↔ ∃ p, dbs.pendingM6ids.get? d.sidechainNumber = some p ∧
      dbs' = { dbs.putCtip d.sidechainNumber d.newCtip with
        pendingM6ids := dbs.pendingM6ids.insert d.sidechainNumber
          (p.remove d.removedPendingWithdrawal) } := by
  unfold apply deletePendingWithdrawal
  rw [withPendingWithdrawals_ok]
  simp only [putCtip_pendingM6ids,Except.ok.injEq]
  constructor
  · rintro ⟨p,_,hp,rfl,rfl⟩; exact ⟨p,hp,rfl⟩
  · rintro ⟨p,hp,rfl⟩; exact ⟨p,_,hp,rfl,rfl⟩

theorem undoes_apply {P : Prop} {d : M6} {dbs dbs' : ActiveSidechainDbs}
    (hs : dbs.SlotOk d.sidechainNumber)
    (hfresh : P → dbs.ctipOutpointToValueSeq.get? d.newCtip.outpoint = none)
    (hfull : ∀ p, dbs.pendingM6ids.get? d.sidechainNumber = some p →
      p.getFull d.removedPendingWithdrawal =
        some (d.removedPendingWithdrawalIndex,d.removedPendingWithdrawalInfo))
    (h : d.apply dbs = .ok dbs') : Undo.Undoes undo (Like P) d dbs' dbs := by
  rintro t ⟨i,rfl,hi⟩
  obtain ⟨p,hp,rfl⟩ := apply_ok.mp h
  refine ⟨dbs.setIndex (i.erase d.newCtip.outpoint),?_,_,rfl,?_⟩
  · have hdel := deleteCtip_putCtip hs d.newCtip i
    have hpend := deleteCtip_setPending ((dbs.putCtip d.sidechainNumber d.newCtip).setIndex i)
      d.sidechainNumber
      (dbs.pendingM6ids.insert d.sidechainNumber (p.remove d.removedPendingWithdrawal))
    rw [hdel] at hpend
    have hback := OrderMap.shiftInsert_remove (hfull p hp)
    refine Fallible.bind_ok.mpr ⟨_,hpend,?_⟩
    refine withPendingWithdrawals_ok.mpr ⟨_,p,FinMap.get?_insert_self _ _ _,?_,?_⟩
    · rw [hback]
      rfl
    · simp only [FinMap.insert_insert,FinMap.insert_of_get? hp]
      rfl
  · intro hP
    rw [hi hP]
    exact FinMap.erase_insert _ (hfresh hP)

end M6

end Diff
end Bip300301Enforcer
