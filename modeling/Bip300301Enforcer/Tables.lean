import Bip300301Enforcer.HandlerSpecs
import Bip300301Enforcer.TreasuryTx

/-! The links between the tables of the validator, and that every diff keeps
them. -/
namespace Bip300301Enforcer
open Lib

namespace ActiveSidechainDbs

/-- The treasury outputs that a slot has had, numbered from zero, each with the
total value before it. The last one is the ctip. -/
structure History (dbs : ActiveSidechainDbs) (s : SidechainNumber) : Prop where
  entries : ∀ n, dbs.slotSequenceToTreasuryUtxo.contains (s,n) = true ↔ n < dbs.count s
  slot : ∀ n u, dbs.slotSequenceToTreasuryUtxo.get? (s,n) = some u → u.sidechainNumber = s
  first : ∀ u, dbs.slotSequenceToTreasuryUtxo.get? (s,0) = some u → u.previousTotalValue = 0
  next : ∀ n u u', dbs.slotSequenceToTreasuryUtxo.get? (s,n) = some u →
    dbs.slotSequenceToTreasuryUtxo.get? (s,n+1) = some u' → u'.previousTotalValue = u.totalValue
  noCtip : dbs.count s = 0 → dbs.ctip.get? s = none
  ctip : ∀ n u, dbs.count s = n+1 → dbs.slotSequenceToTreasuryUtxo.get? (s,n) = some u →
    dbs.ctip.get? s = some ⟨u.outpoint,u.totalValue⟩

/-- The links between the tables of the active sidechains, leaving the index out. -/
structure Tables (dbs : ActiveSidechainDbs) : Prop where
  pending : ∀ s, dbs.pendingM6ids.contains s = dbs.sidechain.contains s
  history : ∀ s, dbs.History s
  ctipActive : ∀ s, dbs.ctip.contains s = true → dbs.sidechain.contains s = true

/-- The index lists every treasury output that there has been, and nothing else. -/
def Indexed (dbs : ActiveSidechainDbs) : Prop :=
  ∀ o s v n, dbs.ctipOutpointToValueSeq.get? o = some (s,v,n) ↔
    ∃ u, dbs.slotSequenceToTreasuryUtxo.get? (s,n) = some u ∧ u.outpoint = o ∧ u.totalValue = v

/-- All treasury outputs are outputs of the given transactions. -/
def MadeBy (dbs : ActiveSidechainDbs) (T : Txid → Prop) : Prop :=
  ∀ s n u, dbs.slotSequenceToTreasuryUtxo.get? (s,n) = some u → T u.outpoint.txid

structure SameTreasury (a b : ActiveSidechainDbs) : Prop where
  ctip : a.ctip = b.ctip
  index : a.ctipOutpointToValueSeq = b.ctipOutpointToValueSeq
  slotSequence : a.slotSequenceToTreasuryUtxo = b.slotSequenceToTreasuryUtxo
  utxoCount : a.treasuryUtxoCount = b.treasuryUtxoCount

theorem SameTreasury.refl (a : ActiveSidechainDbs) : SameTreasury a a := ⟨rfl,rfl,rfl,rfl⟩

theorem SameTreasury.trans {a b c : ActiveSidechainDbs} (h : SameTreasury a b)
    (h' : SameTreasury b c) : SameTreasury a c :=
  ⟨h.ctip.trans h'.ctip,h.index.trans h'.index,h.slotSequence.trans h'.slotSequence,
    h.utxoCount.trans h'.utxoCount⟩

theorem SameTreasury.count {a b : ActiveSidechainDbs} (h : SameTreasury a b) (s : SidechainNumber) :
    a.count s = b.count s := by
  simp [ActiveSidechainDbs.count,h.utxoCount]

theorem SameTreasury.history {a b : ActiveSidechainDbs} (h : SameTreasury a b)
    {s : SidechainNumber} (hs : b.History s) : a.History s := by
  constructor
  · rw [h.slotSequence,h.count]; exact hs.entries
  · rw [h.slotSequence]; exact hs.slot
  · rw [h.slotSequence]; exact hs.first
  · rw [h.slotSequence]; exact hs.next
  · rw [h.count,h.ctip]; exact hs.noCtip
  · rw [h.count,h.ctip,h.slotSequence]; exact hs.ctip

theorem SameTreasury.indexed {a b : ActiveSidechainDbs} (h : SameTreasury a b) (hb : b.Indexed) :
    a.Indexed := by
  unfold Indexed
  rw [h.index,h.slotSequence]
  exact hb

theorem SameTreasury.madeBy {a b : ActiveSidechainDbs} (h : SameTreasury a b) {T : Txid → Prop}
    (hb : b.MadeBy T) : a.MadeBy T := by
  unfold MadeBy
  rw [h.slotSequence]
  exact hb

theorem SameTreasury.treasuryValue {a b : ActiveSidechainDbs} (h : SameTreasury a b)
    (s : SidechainNumber) : a.treasuryValue s = b.treasuryValue s := by
  simp [ActiveSidechainDbs.treasuryValue,h.ctip]

theorem MadeBy.mono {dbs : ActiveSidechainDbs} {T T' : Txid → Prop} (h : dbs.MadeBy T)
    (hT : ∀ t, T t → T' t) : dbs.MadeBy T' :=
  fun s n u hu => hT _ (h s n u hu)

theorem tables_setIndex {dbs : ActiveSidechainDbs}
    {i : Database OutPoint (SidechainNumber × ℕ × ℕ)} (h : dbs.Tables) : (dbs.setIndex i).Tables :=
  ⟨h.pending,fun s => ⟨(h.history s).entries,(h.history s).slot,(h.history s).first,
    (h.history s).next,(h.history s).noCtip,(h.history s).ctip⟩,h.ctipActive⟩

namespace History

variable {dbs : ActiveSidechainDbs} {s : SidechainNumber}

theorem get?_none (h : dbs.History s) {n : ℕ} (hn : dbs.count s ≤ n) :
    dbs.slotSequenceToTreasuryUtxo.get? (s,n) = none := by
  rw [← FinMap.contains_false_iff]
  by_contra hne
  have hlt := (h.entries n).mp (by simpa using hne)
  omega

theorem get?_some (h : dbs.History s) {n : ℕ} (hn : n < dbs.count s) :
    ∃ u, dbs.slotSequenceToTreasuryUtxo.get? (s,n) = some u :=
  (FinMap.contains_iff _ _).mp ((h.entries n).mpr hn)

theorem slotOk (h : dbs.History s) : dbs.SlotOk s := by
  refine ⟨h.get?_none le_rfl,?_⟩
  cases hc : dbs.count s with
  | zero => exact h.noCtip hc
  | succ n =>
    obtain ⟨u,hu⟩ := h.get?_some (show n < dbs.count s by omega)
    exact ⟨u,hu,h.ctip n u hc hu⟩

theorem last (h : dbs.History s) {c : Ctip} (hc : dbs.ctip.get? s = some c) :
    ∃ n u, dbs.count s = n+1 ∧ dbs.slotSequenceToTreasuryUtxo.get? (s,n) = some u ∧
      u.outpoint = c.outpoint ∧ u.totalValue = c.value := by
  cases hcount : dbs.count s with
  | zero => rw [h.noCtip hcount] at hc; cases hc
  | succ n =>
    obtain ⟨u,hu⟩ := h.get?_some (show n < dbs.count s by omega)
    have hcu := h.ctip n u hcount hu
    rw [hc] at hcu
    obtain rfl := Option.some.inj hcu
    exact ⟨n,u,rfl,hu,rfl,rfl⟩

theorem treasuryValue_eq (h : dbs.History s) {n : ℕ} {u : TreasuryUtxo}
    (hn : dbs.count s = n+1) (hu : dbs.slotSequenceToTreasuryUtxo.get? (s,n) = some u) :
    dbs.treasuryValue s = u.totalValue := by
  simp [ActiveSidechainDbs.treasuryValue,h.ctip n u hn hu]

theorem putCtip_ne {s' : SidechainNumber} (c : Ctip) (hne : s' ≠ s) (h : dbs.History s) :
    (dbs.putCtip s' c).History s := by
  have hk (n m : ℕ) : (s',n) ≠ (s,m) := fun he => hne (Prod.mk.inj he).1
  constructor
  · intro n
    rw [putCtip_slotSequence,FinMap.contains_insert,count_putCtip_ne _ _ _ hne]
    simpa [hk] using h.entries n
  · simpa [FinMap.get?_insert,hk] using h.slot
  · simpa [FinMap.get?_insert,hk] using h.first
  · simpa [FinMap.get?_insert,hk] using h.next
  · rw [count_putCtip_ne _ _ _ hne]
    simpa [FinMap.get?_insert,hne] using h.noCtip
  · rw [count_putCtip_ne _ _ _ hne]
    simpa [FinMap.get?_insert,hk,hne] using h.ctip

theorem putCtip_self (c : Ctip) (h : dbs.History s) : (dbs.putCtip s c).History s := by
  have hget (n : ℕ) : (dbs.putCtip s c).slotSequenceToTreasuryUtxo.get? (s,n) =
      if dbs.count s = n then some ⟨s,c.outpoint,c.value,dbs.treasuryValue s⟩
      else dbs.slotSequenceToTreasuryUtxo.get? (s,n) := by
    rw [putCtip_slotSequence,FinMap.get?_insert]
    simp
  constructor
  · intro n
    rw [FinMap.contains,hget,count_putCtip_self]
    by_cases hn : dbs.count s = n
    · simp [hn]
    · rw [if_neg hn]
      have := h.entries n
      rw [FinMap.contains] at this
      rw [this]
      omega
  · intro n u hu
    rw [hget] at hu
    split at hu
    · obtain rfl := Option.some.inj hu; rfl
    · exact h.slot n u hu
  · intro u hu
    rw [hget] at hu
    split at hu
    · rename_i hz
      obtain rfl := Option.some.inj hu
      simp [ActiveSidechainDbs.treasuryValue,h.noCtip hz]
    · exact h.first u hu
  · intro n u u' hu hu'
    rw [hget] at hu hu'
    by_cases hn : dbs.count s = n
    · -- there is nothing after the new entry
      rw [if_neg (by omega),h.get?_none (by omega)] at hu'
      cases hu'
    · rw [if_neg hn] at hu
      by_cases hn' : dbs.count s = n+1
      · rw [if_pos hn'] at hu'
        obtain rfl := Option.some.inj hu'
        exact h.treasuryValue_eq hn' hu
      · rw [if_neg hn'] at hu'
        exact h.next n u u' hu hu'
  · intro hz
    rw [count_putCtip_self] at hz
    omega
  · intro n u hn hu
    rw [count_putCtip_self] at hn
    rw [hget,if_pos (by omega)] at hu
    obtain rfl := Option.some.inj hu
    simp

end History

theorem history_putCtip {dbs : ActiveSidechainDbs} (s' : SidechainNumber) (c : Ctip)
    {s : SidechainNumber} (h : dbs.History s) : (dbs.putCtip s' c).History s := by
  by_cases hne : s' = s
  · subst hne; exact h.putCtip_self c
  · exact h.putCtip_ne c hne

theorem tables_putCtip {dbs : ActiveSidechainDbs} {s : SidechainNumber} (c : Ctip) (h : dbs.Tables)
    (hs : dbs.sidechain.contains s = true) : (dbs.putCtip s c).Tables := by
  refine ⟨h.pending,fun s' => history_putCtip s c (h.history s'),?_⟩
  intro s' hc
  rw [putCtip_ctip,FinMap.contains_insert] at hc
  by_cases hne : s = s'
  · subst hne; exact hs
  · exact h.ctipActive s' (by simpa [hne] using hc)

theorem putCtips_sidechain (dbs : ActiveSidechainDbs) (l : List (SidechainNumber × Ctip)) :
    (dbs.putCtips l).sidechain = dbs.sidechain := by
  induction l generalizing dbs with
  | nil => rfl
  | cons e l ih => rw [putCtips_cons,ih,putCtip_sidechain]

theorem putCtips_pendingM6ids (dbs : ActiveSidechainDbs) (l : List (SidechainNumber × Ctip)) :
    (dbs.putCtips l).pendingM6ids = dbs.pendingM6ids := by
  induction l generalizing dbs with
  | nil => rfl
  | cons e l ih => rw [putCtips_cons,ih,putCtip_pendingM6ids]

theorem tables_putCtips {dbs : ActiveSidechainDbs} (l : List (SidechainNumber × Ctip))
    (h : dbs.Tables) (hl : ∀ e ∈ l, dbs.sidechain.contains e.1 = true) : (dbs.putCtips l).Tables := by
  induction l generalizing dbs with
  | nil => exact h
  | cons e l ih =>
    rw [putCtips_cons]
    refine ih (tables_putCtip e.2 h (hl e (List.mem_cons_self ..))) ?_
    intro e' he'
    exact hl e' (List.mem_cons_of_mem _ he')

/-- A new outpoint is added to the index. -/
theorem indexed_putCtip {dbs : ActiveSidechainDbs} {s : SidechainNumber} {c : Ctip}
    (h : dbs.Indexed) (hs : dbs.History s) (hnew : dbs.ctipOutpointToValueSeq.get? c.outpoint = none) :
    (dbs.putCtip s c).Indexed := by
  intro o s' v n
  rw [putCtip_index,putCtip_slotSequence,FinMap.get?_insert,FinMap.get?_insert]
  by_cases hkey : (s,dbs.count s) = (s',n)
  · obtain ⟨rfl,rfl⟩ := Prod.mk.inj hkey
    rw [if_pos rfl]
    by_cases ho : c.outpoint = o
    · subst ho
      simp [eq_comm]
    · rw [if_neg ho,h]
      simp [hs.get?_none le_rfl,ho]
  · rw [if_neg hkey]
    by_cases ho : c.outpoint = o
    · subst ho
      rw [if_pos rfl]
      constructor
      · intro he
        simp only [Option.some.injEq,Prod.mk.injEq] at he
        exact absurd (Prod.ext he.1 he.2.2) hkey
      · intro he
        rw [← h,hnew] at he
        cases he
    · rw [if_neg ho,h]

theorem madeBy_putCtip {dbs : ActiveSidechainDbs} {s : SidechainNumber} {c : Ctip} {T : Txid → Prop}
    (h : dbs.MadeBy T) (hc : T c.outpoint.txid) : (dbs.putCtip s c).MadeBy T := by
  intro s' n u hu
  rw [putCtip_slotSequence,FinMap.get?_insert] at hu
  split at hu
  · obtain rfl := Option.some.inj hu; exact hc
  · exact h s' n u hu

theorem madeBy_putCtips {dbs : ActiveSidechainDbs} {T : Txid → Prop}
    (l : List (SidechainNumber × Ctip)) (h : dbs.MadeBy T) (hl : ∀ e ∈ l, T e.2.outpoint.txid) :
    (dbs.putCtips l).MadeBy T := by
  induction l generalizing dbs with
  | nil => exact h
  | cons e l ih =>
    rw [putCtips_cons]
    exact ih (madeBy_putCtip h (hl e (List.mem_cons_self ..)))
      (fun e' he' => hl e' (List.mem_cons_of_mem _ he'))

theorem indexed_putCtips {dbs : ActiveSidechainDbs} (l : List (SidechainNumber × Ctip))
    (h : dbs.Indexed) (hs : ∀ s, dbs.History s)
    (hnew : ∀ e ∈ l, dbs.ctipOutpointToValueSeq.get? e.2.outpoint = none)
    (hinj : (l.map (fun e => e.2.outpoint)).Nodup) : (dbs.putCtips l).Indexed := by
  induction l generalizing dbs with
  | nil => exact h
  | cons e l ih =>
    rw [List.map_cons,List.nodup_cons] at hinj
    rw [putCtips_cons]
    refine ih (indexed_putCtip h (hs e.1) (hnew e (List.mem_cons_self ..)))
      (fun s => history_putCtip e.1 e.2 (hs s)) ?_ hinj.2
    intro e' he'
    have hne : e.2.outpoint ≠ e'.2.outpoint := by
      intro heq
      exact hinj.1 (List.mem_map.mpr ⟨e',he',heq.symm⟩)
    rw [putCtip_index,FinMap.get?_insert_ne _ _ hne]
    exact hnew e' (List.mem_cons_of_mem _ he')

end ActiveSidechainDbs

/-- The links between all consensus tables, leaving the index out. -/
structure ConsensusDbs.Wf [Bitcoin] (t : ConsensusDbs) : Prop where
  tables : t.activeSidechains.Tables
  sidechains : ∀ s sc, t.activeSidechains.sidechain.get? s = some sc →
    sc.proposal.sidechainNumber = s ∧ sc.status.activationHeight.isSome = true
  proposals : ∀ id sc, t.proposalIdToSidechain.get? id = some sc →
    sc.proposal.computeId = id ∧ sc.status.activationHeight = none

end Bip300301Enforcer
