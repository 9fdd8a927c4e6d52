import Bip300301Enforcer.Runs
import Bip300301Enforcer.TreasuryTx

/-! The slots of a transaction are handled one after the other. What the transaction does
does not depend on their order, which is random in a hash map. -/
namespace Bip300301Enforcer
open Lib

namespace UnconsolidatedCtips

/-- An outpoint is listed for no other slot than this. -/
def Owned (u : UnconsolidatedCtips) (s : SidechainNumber) (o : OutPoint) : Prop :=
  ∀ s' v, u.byOutpoint.get? o = some (s',v) → s' = s

variable {u u' : UnconsolidatedCtips} {s s' : SidechainNumber} {o : OutPoint}

theorem bySidechain_remove_ne (ho : u.Owned s o) (hs : s' ≠ s) :
    (u.remove o).bySidechain.get? s' = u.bySidechain.get? s' := by
  unfold remove
  cases hu : u.byOutpoint.get? o with
  | none => rfl
  | some e =>
    obtain ⟨a,v⟩ := e
    obtain rfl := ho a v hu
    cases hb : u.bySidechain.get? a with
    | none => simp only [hb]
    | some ctips =>
      simp only [hb]
      split
      · exact FinMap.get?_erase_ne _ hs.symm
      · exact FinMap.get?_insert_ne _ _ hs.symm

theorem bySidechain_remove_congr (ho : u.Owned s o)
    (hb : u.bySidechain.get? s = u'.bySidechain.get? s)
    (hu : u.byOutpoint.get? o = u'.byOutpoint.get? o) :
    (u.remove o).bySidechain.get? s = (u'.remove o).bySidechain.get? s := by
  unfold remove
  rw [← hu]
  cases hu : u.byOutpoint.get? o with
  | none => exact hb
  | some e =>
    obtain ⟨a,v⟩ := e
    obtain rfl := ho a v hu
    simp only [← hb]
    cases hl : u.bySidechain.get? a with
    | none => simp only [hl,← hb]
    | some ctips =>
      simp only
      split
      · rw [FinMap.get?_erase_self,FinMap.get?_erase_self]
      · rw [FinMap.get?_insert_self,FinMap.get?_insert_self]

theorem Owned.remove (ho : u.Owned s o) (o' : OutPoint) : (u.remove o').Owned s o := by
  intro a v ha
  rw [byOutpoint_remove] at ha
  split at ha
  · cases ha
  · exact ho a v ha

theorem bySidechain_foldl_remove_ne {l : List Ctip} (ho : ∀ c ∈ l, u.Owned s c.outpoint)
    (hs : s' ≠ s) :
    (l.foldl (fun u c => u.remove c.outpoint) u).bySidechain.get? s' = u.bySidechain.get? s' := by
  induction l generalizing u with
  | nil => rfl
  | cons c l ih =>
    have hc := ho c (List.mem_cons_self ..)
    rw [List.foldl_cons,ih (fun c' hc' => (ho c' (List.mem_cons_of_mem _ hc')).remove _),
      bySidechain_remove_ne hc hs]

theorem bySidechain_foldl_remove_congr {l : List Ctip} (ho : ∀ c ∈ l, u.Owned s c.outpoint)
    (hb : u.bySidechain.get? s = u'.bySidechain.get? s)
    (hu : ∀ c ∈ l, u.byOutpoint.get? c.outpoint = u'.byOutpoint.get? c.outpoint) :
    (l.foldl (fun u c => u.remove c.outpoint) u).bySidechain.get? s =
      (l.foldl (fun u c => u.remove c.outpoint) u').bySidechain.get? s := by
  induction l generalizing u u' with
  | nil => exact hb
  | cons c l ih =>
    have hc := ho c (List.mem_cons_self ..)
    rw [List.foldl_cons,List.foldl_cons]
    refine ih (fun c' hc' => (ho c' (List.mem_cons_of_mem _ hc')).remove _) ?_ ?_
    · exact bySidechain_remove_congr hc hb (hu c (List.mem_cons_self ..))
    · intro c' hc'
      rw [byOutpoint_remove,byOutpoint_remove,hu c' (List.mem_cons_of_mem _ hc')]

end UnconsolidatedCtips

namespace BlockHandler
open UnconsolidatedCtips

section Update

variable {dbs : ActiveSidechainDbs} {u u' : UnconsolidatedCtips}
  {e e' : SidechainNumber × TxCtipsInfo}

/-- The outpoints that a slot's part of a transaction spends are its own. -/
def OwnsInputs (u : UnconsolidatedCtips) (e : SidechainNumber × TxCtipsInfo) : Prop :=
  ∀ c ∈ e.2.unconsolidatedCtipInputs, u.Owned e.1 c.outpoint

/-- Two slots of one transaction have nothing in common. -/
structure Apart (e e' : SidechainNumber × TxCtipsInfo) : Prop where
  slot : e.1 ≠ e'.1
  output : e.2.ctipOutput.outpoint ≠ e'.2.ctipOutput.outpoint
  left : e.2.ctipOutput.outpoint ∉ e'.2.unconsolidatedCtipInputs.map Ctip.outpoint
  right : e'.2.ctipOutput.outpoint ∉ e.2.unconsolidatedCtipInputs.map Ctip.outpoint
  inputs : ∀ o ∈ e.2.unconsolidatedCtipInputs.map Ctip.outpoint,
    o ∉ e'.2.unconsolidatedCtipInputs.map Ctip.outpoint

theorem Apart.symm (h : Apart e e') : Apart e' e :=
  ⟨h.slot.symm,h.output.symm,h.right,h.left,fun o ho ho' => h.inputs o ho' ho⟩

theorem bySidechain_update_ne (ho : OwnsInputs u e) {s : SidechainNumber} (hs : s ≠ e.1) :
    (updateUnconsolidated dbs u e.1 e.2).bySidechain.get? s = u.bySidechain.get? s := by
  have hfold := bySidechain_foldl_remove_ne ho hs
  unfold updateUnconsolidated
  split
  · exact hfold
  · exact (FinMap.get?_insert_ne _ _ hs.symm).trans hfold

theorem bySidechain_update_congr (ho : OwnsInputs u e)
    (hb : u.bySidechain.get? e.1 = u'.bySidechain.get? e.1)
    (hu : ∀ c ∈ e.2.unconsolidatedCtipInputs,
      u.byOutpoint.get? c.outpoint = u'.byOutpoint.get? c.outpoint) :
    (updateUnconsolidated dbs u e.1 e.2).bySidechain.get? e.1 =
      (updateUnconsolidated dbs u' e.1 e.2).bySidechain.get? e.1 := by
  have hfold := bySidechain_foldl_remove_congr ho hb hu
  unfold updateUnconsolidated
  split
  · exact hfold
  · simp only [UnconsolidatedCtips.insert,FinMap.get?_insert_self,hfold]

theorem byOutpoint_update_apart (h : Apart e e') :
    ∀ c ∈ e.2.unconsolidatedCtipInputs, (updateUnconsolidated dbs u e'.1 e'.2).byOutpoint.get?
      c.outpoint = u.byOutpoint.get? c.outpoint := by
  intro c hc
  have hmem : c.outpoint ∈ e.2.unconsolidatedCtipInputs.map Ctip.outpoint := List.mem_map_of_mem hc
  obtain ⟨-,hold⟩ := updateUnconsolidated_get? dbs u e' c.outpoint
  rw [hold (fun _ he => h.right (he ▸ hmem)),if_neg (h.inputs _ hmem)]

theorem OwnsInputs.update (ho : OwnsInputs u e) (h : Apart e e') :
    OwnsInputs (updateUnconsolidated dbs u e'.1 e'.2) e := by
  intro c hc s v hs
  rw [byOutpoint_update_apart h c hc] at hs
  exact ho c hc s v hs

/-- Two slots can be handled in either order. -/
theorem updateUnconsolidated_comm (h : Apart e e') (ho : OwnsInputs u e) (ho' : OwnsInputs u e') :
    updateUnconsolidated dbs (updateUnconsolidated dbs u e.1 e.2) e'.1 e'.2 =
      updateUnconsolidated dbs (updateUnconsolidated dbs u e'.1 e'.2) e.1 e.2 := by
  have hby : ∀ {e e'}, Apart e e' → OwnsInputs u e → OwnsInputs u e' →
      (updateUnconsolidated dbs (updateUnconsolidated dbs u e.1 e.2) e'.1 e'.2).bySidechain.get?
        e.1 = (updateUnconsolidated dbs (updateUnconsolidated dbs u e'.1 e'.2) e.1
          e.2).bySidechain.get? e.1 := by
    intro e e' h ho ho'
    rw [bySidechain_update_ne (ho'.update h.symm) h.slot]
    refine (bySidechain_update_congr (ho.update h) ?_ (byOutpoint_update_apart h)).symm
    exact bySidechain_update_ne ho' h.slot
  have hout : ∀ o, (updateUnconsolidated dbs (updateUnconsolidated dbs u e.1 e.2) e'.1
      e'.2).byOutpoint.get? o = (updateUnconsolidated dbs (updateUnconsolidated dbs u e'.1 e'.2) e.1
        e.2).byOutpoint.get? o := by
    intro o
    obtain ⟨hnew,hold⟩ := updateUnconsolidated_get? dbs u e o
    obtain ⟨hnew',hold'⟩ := updateUnconsolidated_get? dbs u e' o
    obtain ⟨hnew₂,hold₂⟩ := updateUnconsolidated_get? dbs (updateUnconsolidated dbs u e'.1 e'.2) e o
    obtain ⟨hnew₂',hold₂'⟩ := updateUnconsolidated_get? dbs (updateUnconsolidated dbs u e.1 e.2) e' o
    by_cases hl : Leaves dbs e ∧ e.2.ctipOutput.outpoint = o
    · have hne : Leaves dbs e' → e'.2.ctipOutput.outpoint ≠ o := fun _ he =>
        h.output (hl.2.trans he.symm)
      rw [hnew₂ hl.1 hl.2,hold₂' hne,if_neg (hl.2 ▸ h.left),hnew hl.1 hl.2]
    · have hne : Leaves dbs e → e.2.ctipOutput.outpoint ≠ o := fun hl₁ hl₂ => hl ⟨hl₁,hl₂⟩
      rw [hold₂ hne]
      by_cases hl' : Leaves dbs e' ∧ e'.2.ctipOutput.outpoint = o
      · rw [hnew₂' hl'.1 hl'.2,if_neg (hl'.2 ▸ h.right),hnew' hl'.1 hl'.2]
      · have hne' : Leaves dbs e' → e'.2.ctipOutput.outpoint ≠ o := fun hl₁ hl₂ => hl' ⟨hl₁,hl₂⟩
        rw [hold₂' hne',hold hne,hold' hne']
        split <;> split <;> rfl
  have hside : ∀ s, (updateUnconsolidated dbs (updateUnconsolidated dbs u e.1 e.2) e'.1
      e'.2).bySidechain.get? s = (updateUnconsolidated dbs (updateUnconsolidated dbs u e'.1 e'.2) e.1
        e.2).bySidechain.get? s := by
    intro s
    by_cases hs : s = e.1
    · rw [hs]
      exact hby h ho ho'
    · by_cases hs' : s = e'.1
      · rw [hs']
        exact (hby h.symm ho' ho).symm
      · rw [bySidechain_update_ne (ho'.update h.symm) hs',bySidechain_update_ne ho hs,
          bySidechain_update_ne (ho.update h) hs,bySidechain_update_ne ho' hs']
  generalize updateUnconsolidated dbs (updateUnconsolidated dbs u e.1 e.2) e'.1 e'.2 = v at hout hside
  generalize updateUnconsolidated dbs (updateUnconsolidated dbs u e'.1 e'.2) e.1 e.2 = v' at hout hside
  cases v
  cases v'
  congr 1
  · exact FinMap.ext hout
  · exact FinMap.ext hside

theorem updateAll_perm {l l' : List (SidechainNumber × TxCtipsInfo)} (hp : l.Perm l')
    (hapart : l.Pairwise Apart) (ho : ∀ e ∈ l, OwnsInputs u e) :
    updateAll dbs u l = updateAll dbs u l' := by
  induction hp generalizing u with
  | nil => rfl
  | cons e hp ih =>
    obtain ⟨hhead,htail⟩ := List.pairwise_cons.mp hapart
    refine ih htail (fun e' he' => ?_)
    exact (ho e' (List.mem_cons_of_mem _ he')).update (hhead e' he').symm
  | swap e e' l =>
    have happ := (List.pairwise_cons.mp hapart).1 e (List.mem_cons_self ..)
    simp only [updateAll,List.foldl_cons]
    rw [updateUnconsolidated_comm happ (ho e' (List.mem_cons_self ..))
      (ho e (List.mem_cons_of_mem _ (List.mem_cons_self ..)))]
  | trans hp _ ih ih' =>
    rw [ih hapart ho]
    refine ih' (hapart.perm hp (fun h => h.symm)) (fun e he => ho e (hp.mem_iff.mpr he))

end Update

section Order

variable [Bitcoin] {h : BlockHandler} {dbs : ActiveSidechainDbs} {u : UnconsolidatedCtips}
  {tx : Transaction} {l l' : List (SidechainNumber × TxCtipsInfo)}

/-- What a transaction does is determined by its slots. -/
theorem outcome_unique (hp : l.Perm l') {r r' : Option DepositsOrSuccessfulWithdrawal}
    (ho : Outcome h dbs tx l r) (ho' : Outcome h dbs tx l' r') : r = r' := by
  match r, r' with
  | none, none => rfl
  | none, some (.m5Deposits _ _) =>
    obtain rfl : l = [] := ho
    exact absurd hp.nil_eq.symm ho'.1
  | none, some (.m6Withdrawal _ _ _ _) =>
    obtain rfl : l = [] := ho
    obtain ⟨info,rfl,-⟩ := ho'
    exact absurd hp.nil_eq (by simp)
  | some (.m5Deposits _ _), none =>
    obtain rfl : l' = [] := ho'
    exact absurd hp.eq_nil ho.1
  | some (.m6Withdrawal _ _ _ _), none =>
    obtain rfl : l' = [] := ho'
    obtain ⟨info,rfl,-⟩ := ho
    exact absurd hp.eq_nil (by simp)
  | some (.m5Deposits _ _), some (.m6Withdrawal _ _ _ _) =>
    obtain ⟨info,rfl,hlt,-⟩ := ho'
    obtain ⟨-,hslots,-⟩ := ho
    exact absurd (hslots _ (hp.mem_iff.mpr (List.mem_singleton_self _))).1.le (Nat.not_le.mpr hlt)
  | some (.m6Withdrawal _ _ _ _), some (.m5Deposits _ _) =>
    obtain ⟨info,rfl,hlt,-⟩ := ho
    obtain ⟨-,hslots,-⟩ := ho'
    exact absurd (hslots _ (hp.mem_iff.mp (List.mem_singleton_self _))).1.le (Nat.not_le.mpr hlt)
  | some (.m6Withdrawal _ _ _ d), some (.m6Withdrawal _ _ _ d') =>
    obtain ⟨info,rfl,-,hd,rfl,rfl⟩ := ho
    obtain ⟨info',rfl,-,hd',rfl,rfl⟩ := ho'
    obtain ⟨rfl,rfl⟩ := Prod.mk.inj (List.singleton_inj.mp (List.perm_singleton.mp hp))
    obtain rfl := Except.ok.inj (hd.symm.trans hd')
    rfl
  | some (.m5Deposits deposits d), some (.m5Deposits deposits' d') =>
    obtain ⟨-,hslots,hout⟩ := ho
    obtain ⟨-,hslots',hout'⟩ := ho'
    have hsame : ∀ s, deposits.get? s = deposits'.get? s ∧ d.newCtips.get? s = d'.newCtips.get? s := by
      intro s
      by_cases hs : s ∈ l.map Prod.fst
      · obtain ⟨e,he,rfl⟩ := List.mem_map.mp hs
        obtain ⟨hdep,hctip⟩ := hslots e he
        obtain ⟨hdep',hctip'⟩ := hslots' e (hp.mem_iff.mp he)
        exact ⟨Except.ok.inj (hdep.deposit.symm.trans hdep'.deposit),hctip.trans hctip'.symm⟩
      · have hs' : s ∉ l'.map Prod.fst := fun hm => hs ((hp.map Prod.fst).mem_iff.mpr hm)
        obtain ⟨hdep,hctip⟩ := hout s hs
        obtain ⟨hdep',hctip'⟩ := hout' s hs'
        exact ⟨hdep.trans hdep'.symm,hctip.trans hctip'.symm⟩
    have hdeposits : deposits = deposits' := FinMap.ext (fun s => (hsame s).1)
    have hctips : d.newCtips = d'.newCtips := FinMap.ext (fun s => (hsame s).2)
    obtain ⟨ctips⟩ := d
    obtain ⟨ctips'⟩ := d'
    rw [hdeposits,show ctips = ctips' from hctips]

theorem foldlM_handleSlot_perm {n : ℕ} (hp : l.Perm l') (hl : (l.map Prod.fst).Nodup)
    {r : Option DepositsOrSuccessfulWithdrawal × UnconsolidatedCtips}
    (hf : l.foldlM (h.handleSlot dbs tx n) (none,u) = .ok r) :
    ∃ r', l'.foldlM (h.handleSlot dbs tx n) (none,u) = .ok r' := by
  obtain ⟨ho,-⟩ := foldlM_handleSlot hl hf
  match hr : r.1 with
  | none =>
    rw [hr] at ho
    obtain rfl : l = [] := ho
    obtain rfl := hp.nil_eq
    exact ⟨r,hf⟩
  | some (.m5Deposits deposits d) =>
    rw [hr] at ho
    obtain ⟨-,hslots,-⟩ := ho
    exact foldlM_handleSlot_deposits (fun e he => ⟨_,(hslots e (hp.mem_iff.mpr he)).1⟩)
  | some (.m6Withdrawal s m6id sequenceNumber d) =>
    rw [hr] at ho
    obtain ⟨info,rfl,-⟩ := ho
    obtain rfl := List.perm_singleton.mp hp.symm
    exact ⟨r,hf⟩

/-- The slots of a transaction that does not spend its own outputs have nothing in common. -/
theorem fillCtips_apart {infos : FinMap SidechainNumber TxCtipsInfo}
    (hinfos : h.fillCtips dbs u tx = .ok infos)
    (hself : ∀ i ∈ tx.input, i.previousOutput.txid ≠ tx.computeTxid) :
    infos.toList.Pairwise Apart ∧ ∀ e ∈ infos.toList, OwnsInputs u e := by
  obtain ⟨-,hget⟩ := fillCtips_ok.mp hinfos
  have hslot : ∀ e ∈ infos.toList, slotInfo h dbs u tx e.1 = some e.2 := by
    intro e he
    rw [← hget e.1]
    exact FinMap.mem_toList.mp he
  have hinput : ∀ e ∈ infos.toList, ∀ c ∈ e.2.unconsolidatedCtipInputs,
      (∃ i ∈ tx.input, i.previousOutput = c.outpoint) ∧
        u.byOutpoint.get? c.outpoint = some (e.1,c.value) := by
    intro e he c hc
    obtain ⟨-,n,out,-,-,hinfo,-⟩ := slotInfo_output (hslot e he)
    rw [hinfo] at hc
    obtain ⟨hi,-,hu⟩ := ActiveSidechainDbs.mem_unconsolidatedInputs.mp (mem_asSet.mp hc)
    exact ⟨hi,hu⟩
  have houtput : ∀ e ∈ infos.toList, ∀ e' ∈ infos.toList,
      e.2.ctipOutput.outpoint ∉ e'.2.unconsolidatedCtipInputs.map Ctip.outpoint := by
    intro e he e' he' hm
    obtain ⟨c,hc,hco⟩ := List.mem_map.mp hm
    obtain ⟨⟨i,hi,hio⟩,-⟩ := hinput e' he' c hc
    have htxid := slotInfo_txid (hslot e he)
    rw [← hco,← hio] at htxid
    exact hself i hi htxid
  constructor
  · refine infos.pairwise_toList (fun e he e' he' hne => ⟨hne,?_,?_,?_,?_⟩)
    · exact fun heq => hne (slotInfo_outpoint_inj (hslot e he) (hslot e' he') heq)
    · exact houtput e he e' he'
    · exact houtput e' he' e he
    · intro o ho ho'
      obtain ⟨c,hc,rfl⟩ := List.mem_map.mp ho
      obtain ⟨c',hc',hco⟩ := List.mem_map.mp ho'
      obtain ⟨-,hu⟩ := hinput e he c hc
      obtain ⟨-,hu'⟩ := hinput e' he' c' hc'
      rw [hco,hu] at hu'
      exact hne (Prod.mk.inj (Option.some.inj hu')).1
  · intro e he c hc s v hs
    rw [(hinput e he c hc).2] at hs
    exact (Prod.mk.inj (Option.some.inj hs)).1.symm

/-- `handle_m5_m6`, with the slots in the given order. -/
def handleM5M6In (h : BlockHandler) (dbs : ActiveSidechainDbs) (u : UnconsolidatedCtips)
    (tx : Transaction) (order : List (SidechainNumber × TxCtipsInfo)) :
    Res (Option DepositsOrSuccessfulWithdrawal × UnconsolidatedCtips) :=
  order.foldlM (h.handleSlot dbs tx order.length) (none,u)

/-- A transaction is accepted in every order of its slots or in none, and does the same in
every order. -/
theorem handleM5M6_order (h : BlockHandler) (dbs : ActiveSidechainDbs) (u : UnconsolidatedCtips)
    (tx : Transaction) (infos : FinMap SidechainNumber TxCtipsInfo)
    (order order' : List (SidechainNumber × TxCtipsInfo))
    (hself : ∀ i ∈ tx.input, i.previousOutput.txid ≠ tx.computeTxid)
    (hinfos : h.fillCtips dbs u tx = .ok infos) (hp : order.Perm infos.toList)
    (hp' : order'.Perm infos.toList) :
    (h.handleM5M6In dbs u tx order).toOption = (h.handleM5M6In dbs u tx order').toOption ∧
      (h.handleM5M6In dbs u tx order).toOption = (h.handleM5M6 dbs u tx).toOption := by
  have hmain : ∀ {l l' : List (SidechainNumber × TxCtipsInfo)}, l.Perm infos.toList →
      l'.Perm infos.toList → ∀ r, h.handleM5M6In dbs u tx l = .ok r →
      h.handleM5M6In dbs u tx l' = .ok r := by
    intro l l' hl hl' r hr
    obtain ⟨hapart,howns⟩ := fillCtips_apart hinfos hself
    have hperm : l.Perm l' := hl.trans hl'.symm
    have hnodup : (l.map Prod.fst).Nodup := (hl.map Prod.fst).nodup_iff.mpr (FinMap.nodup_keys infos)
    have hnodup' : (l'.map Prod.fst).Nodup :=
      (hl'.map Prod.fst).nodup_iff.mpr (FinMap.nodup_keys infos)
    obtain ⟨r',hr'⟩ := foldlM_handleSlot_perm hperm hnodup hr
    rw [hperm.length_eq] at hr'
    obtain ⟨ho,hu⟩ := foldlM_handleSlot hnodup hr
    obtain ⟨ho',hu'⟩ := foldlM_handleSlot hnodup' hr'
    have hres := outcome_unique hperm ho ho'
    have hsame : updateAll dbs u l = updateAll dbs u l' :=
      updateAll_perm hperm (hapart.perm hl.symm (fun h => h.symm))
        (fun e he => howns e (hl.mem_iff.mp he))
    have heq : r = r' := by
      apply Prod.ext
      · exact hres
      · rw [hu,hu',hsame]
    rw [heq]
    exact hr'
  have hopt : ∀ {l l' : List (SidechainNumber × TxCtipsInfo)}, l.Perm infos.toList →
      l'.Perm infos.toList →
      (h.handleM5M6In dbs u tx l).toOption = (h.handleM5M6In dbs u tx l').toOption := by
    intro l l' hl hl'
    cases hr : h.handleM5M6In dbs u tx l with
    | ok r => rw [hmain hl hl' r hr]
    | error e =>
      cases hr' : h.handleM5M6In dbs u tx l' with
      | error e' => rfl
      | ok r =>
        rw [hmain hl' hl r hr'] at hr
        cases hr
  have hbase : h.handleM5M6 dbs u tx = h.handleM5M6In dbs u tx infos.toList := by
    rw [handleM5M6,hinfos]
    rfl
  rw [hbase]
  exact ⟨hopt hp hp',hopt hp (.refl _)⟩

end Order

end BlockHandler

section Sample

open Sample

namespace SlotOrderSample

def handler : BlockHandler := .new (.new .bitcoin .regtest)

def sidechain (s : SidechainNumber) : Sidechain := ⟨⟨s,[]⟩,⟨6,1,some 7⟩⟩

def dbs : ActiveSidechainDbs :=
  (ActiveSidechainDbs.empty.putSidechain 1 (sidechain 1)).putSidechain 2 (sidechain 2)

def tx : Transaction :=
  ⟨2,0,[.spending ⟨9,0⟩],[⟨10,OpDrivechain.nop5.script 2⟩,⟨0,newOpReturn [5]⟩,
    ⟨20,OpDrivechain.nop5.script 1⟩,⟨0,newOpReturn [6]⟩]⟩

end SlotOrderSample

open SlotOrderSample

theorem handleM5M6_order_sample :
    ∃ infos, handler.fillCtips dbs .default tx = .ok infos ∧
      (handler.handleM5M6In dbs .default tx infos.toList.reverse).toOption =
        (handler.handleM5M6In dbs .default tx infos.toList).toOption ∧
      (handler.handleM5M6In dbs .default tx infos.toList.reverse).toOption.isSome = true := by
  obtain ⟨infos,hinfos⟩ : ∃ infos, handler.fillCtips dbs .default tx = .ok infos :=
    Fallible.exists_of_isOk (by decide +kernel)
  have horder := BlockHandler.handleM5M6_order handler dbs .default tx infos infos.toList.reverse
    infos.toList (by decide +kernel) hinfos (List.reverse_perm _) (.refl _)
  refine ⟨infos,hinfos,horder.1,?_⟩
  rw [horder.2]
  decide +kernel

end Sample

end Bip300301Enforcer
