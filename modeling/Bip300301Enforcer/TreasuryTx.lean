import Bip300301Enforcer.TreasurySpends
import Bip300301Enforcer.TreasuryUndo

/-! What a transaction does to the treasuries: it is no treasury transaction, or
a deposit into every slot that it touches, or a withdrawal from one slot. -/
namespace Bip300301Enforcer
open Lib

namespace UnconsolidatedCtips

theorem byOutpoint_remove (u : UnconsolidatedCtips) (o a : OutPoint) :
    (u.remove o).byOutpoint.get? a = if o = a then none else u.byOutpoint.get? a := by
  unfold remove
  cases ho : u.byOutpoint.get? o with
  | none =>
    by_cases hoa : o = a
    · subst hoa; simp [ho]
    · simp [hoa]
  | some e => simp [FinMap.get?_erase]

theorem byOutpoint_foldl_remove (u : UnconsolidatedCtips) (l : List Ctip) (a : OutPoint) :
    (l.foldl (fun u c => u.remove c.outpoint) u).byOutpoint.get? a =
      if a ∈ l.map Ctip.outpoint then none else u.byOutpoint.get? a := by
  induction l generalizing u with
  | nil => simp
  | cons c l ih =>
    rw [List.foldl_cons,ih,byOutpoint_remove]
    by_cases hl : a ∈ l.map Ctip.outpoint
    · simp [hl]
    · by_cases hc : c.outpoint = a
      · simp [hc]
      · simp [hl,hc,Ne.symm hc]

theorem byOutpoint_insert (u : UnconsolidatedCtips) (s : SidechainNumber) (c : Ctip) (a : OutPoint) :
    (u.insert s c).byOutpoint.get? a =
      if c.outpoint = a then some (s,c.value) else u.byOutpoint.get? a := by
  simp [insert,FinMap.get?_insert]

end UnconsolidatedCtips

namespace BlockHandler

theorem get?_insertSome {V : Type} (m : FinMap SidechainNumber V) (s a : SidechainNumber)
    (v : Option V) :
    (insertSome m s v).get? a = if s = a then v.or (m.get? a) else m.get? a := by
  cases v with
  | none => simp [insertSome]
  | some v => simp [insertSome,FinMap.get?_insert]

/-- All the slots of a transaction are taken out of the unconsolidated outputs. -/
def updateAll (dbs : ActiveSidechainDbs) (u : UnconsolidatedCtips)
    (l : List (SidechainNumber × TxCtipsInfo)) : UnconsolidatedCtips :=
  l.foldl (fun u e => updateUnconsolidated dbs u e.1 e.2) u

theorem updateAll_snoc (dbs : ActiveSidechainDbs) (u : UnconsolidatedCtips)
    (l : List (SidechainNumber × TxCtipsInfo)) (e : SidechainNumber × TxCtipsInfo) :
    updateAll dbs u (l++[e]) = updateUnconsolidated dbs (updateAll dbs u l) e.1 e.2 := by
  simp [updateAll]

section Classify

variable [Bitcoin] (h : BlockHandler) (dbs : ActiveSidechainDbs) (tx : Transaction)

/-- A slot whose treasury the transaction does not lower. -/
structure SlotDeposits (s : SidechainNumber) (info : TxCtipsInfo) (deposit : Option Deposit) :
    Prop where
  le : info.treasuryValueIn ≤ info.ctipOutput.value
  consolidates : info.ctipOutput.value = info.treasuryValueIn → info.unconsolidatedCtipInputs ≠ []
  deposit : makeDeposit dbs tx s info = .ok deposit

def newCtipOf (s : SidechainNumber) (info : TxCtipsInfo) : Option Ctip :=
  if isNewCtip dbs s info then some info.ctipOutput else none

/-- What a transaction that touches the listed slots does to them. -/
def Outcome (l : List (SidechainNumber × TxCtipsInfo)) : Option DepositsOrSuccessfulWithdrawal → Prop
  | none => l = []
  | some (.m5Deposits deposits d) => l ≠ [] ∧
      (∀ e ∈ l, SlotDeposits dbs tx e.1 e.2 (deposits.get? e.1) ∧
        d.newCtips.get? e.1 = newCtipOf dbs e.1 e.2) ∧
      ∀ s, s ∉ l.map Prod.fst → deposits.get? s = none ∧ d.newCtips.get? s = none
  | some (.m6Withdrawal s m6id sequenceNumber d) => ∃ info, l = [(s,info)] ∧
      info.ctipOutput.value < info.treasuryValueIn ∧ h.makeM6 dbs tx s info = .ok d ∧
      m6id = d.removedPendingWithdrawal ∧ sequenceNumber = dbs.count s

variable {h dbs tx}

theorem makeM6_sidechainNumber {s : SidechainNumber} {info : TxCtipsInfo} {d : Diff.M6}
    (hd : h.makeM6 dbs tx s info = .ok d) : d.sidechainNumber = s := by
  simp only [makeM6,Fallible.bind_ok,Fallible.pure_ok] at hd
  obtain ⟨_,-,_,-,_,-,_,-,_,-,rfl⟩ := hd
  rfl

theorem classify_ok {n : ℕ} {res : Option DepositsOrSuccessfulWithdrawal} {s : SidechainNumber}
    {info : TxCtipsInfo} {r : DepositsOrSuccessfulWithdrawal} :
    h.classify dbs tx n res s info = .ok r ↔
      (info.ctipOutput.value < info.treasuryValueIn ∧
        ∃ d, h.makeM6 dbs tx s info = .ok d ∧ addM6 dbs n d res = .ok r) ∨
      ∃ deposit, SlotDeposits dbs tx s info deposit ∧
        addM5 s deposit (newCtipOf dbs s info) res = .ok r := by
  have hcheck : (!(decide (info.ctipOutput.value = info.treasuryValueIn) &&
      info.unconsolidatedCtipInputs.isEmpty)) = true ↔
      (info.ctipOutput.value = info.treasuryValueIn → info.unconsolidatedCtipInputs ≠ []) := by
    rw [Bool.not_eq_true',Bool.and_eq_false_imp]
    simp
  unfold classify
  rw [Fallible.bind_ok]
  simp only [Fallible.ensure_ok,hcheck]
  by_cases hlt : info.ctipOutput.value < info.treasuryValueIn
  · simp only [hlt,if_true,Fallible.bind_ok,true_and]
    constructor
    · rintro ⟨-,-,d,hd,hr⟩
      exact .inl ⟨d,hd,hr⟩
    · rintro (⟨d,hd,hr⟩ | ⟨deposit,hs,-⟩)
      · exact ⟨(),fun he => absurd he (by omega),d,hd,hr⟩
      · exact absurd hs.le (by omega)
  · simp only [hlt,if_false,Fallible.bind_ok,false_and,false_or]
    constructor
    · rintro ⟨-,hc,deposit,hd,hr⟩
      exact ⟨deposit,⟨by omega,hc,hd⟩,hr⟩
    · rintro ⟨deposit,hs,hr⟩
      exact ⟨(),hs.consolidates,deposit,hs.deposit,hr⟩

theorem outcome_addM5 {l : List (SidechainNumber × TxCtipsInfo)} {s : SidechainNumber}
    {info : TxCtipsInfo} {deposit : Option Deposit} {deposits : FinMap SidechainNumber Deposit}
    {d : Diff.M5} (hs : SlotDeposits dbs tx s info deposit) (hnew : s ∉ l.map Prod.fst)
    (hl : ∀ e ∈ l, SlotDeposits dbs tx e.1 e.2 (deposits.get? e.1) ∧
      d.newCtips.get? e.1 = newCtipOf dbs e.1 e.2)
    (hout : ∀ a, a ∉ l.map Prod.fst → deposits.get? a = none ∧ d.newCtips.get? a = none) :
    Outcome h dbs tx (l++[(s,info)]) (some (.m5Deposits (insertSome deposits s deposit)
      ⟨insertSome d.newCtips s (newCtipOf dbs s info)⟩)) := by
  obtain ⟨hdn,hcn⟩ := hout s hnew
  refine ⟨by simp,?_,?_⟩
  · intro e he
    rcases List.mem_append.mp he with he | he
    · have hne : s ≠ e.1 := by
        intro hse
        exact hnew (List.mem_map.mpr ⟨e,he,hse.symm⟩)
      simpa [get?_insertSome,hne] using hl e he
    · obtain rfl := List.mem_singleton.mp he
      simpa [get?_insertSome,hdn,hcn] using hs
  · intro a ha
    simp only [List.map_append,List.map_cons,List.map_nil,List.mem_append,List.mem_singleton,
      not_or] at ha
    simpa [get?_insertSome,Ne.symm ha.2] using hout a ha.1

/-- One more slot is added to what the transaction does. -/
theorem outcome_step {l : List (SidechainNumber × TxCtipsInfo)} {n : ℕ}
    {res : Option DepositsOrSuccessfulWithdrawal} {r : DepositsOrSuccessfulWithdrawal}
    {s : SidechainNumber} {info : TxCtipsInfo} (ho : Outcome h dbs tx l res)
    (hnew : s ∉ l.map Prod.fst) (hc : h.classify dbs tx n res s info = .ok r) :
    Outcome h dbs tx (l++[(s,info)]) (some r) := by
  rcases classify_ok.mp hc with ⟨hlt,d,hd,hr⟩ | ⟨deposit,hs,hr⟩
  · have hnum := makeM6_sidechainNumber hd
    match res with
    | none =>
      obtain rfl := Except.ok.inj hr
      have hnil : l = [] := ho
      exact ⟨info,by simp [hnil,hnum],hlt,by rw [hnum]; exact hd,rfl,by rw [hnum]⟩
    | some (.m5Deposits _ _) => cases hr
    | some (.m6Withdrawal _ _ _ _) => cases hr
  · match res with
    | none =>
      obtain rfl := Except.ok.inj hr
      have hnil : l = [] := ho
      subst hnil
      exact outcome_addM5 (d := ⟨.empty⟩) hs hnew (by simp) (by simp)
    | some (.m5Deposits deposits d) =>
      obtain rfl := Except.ok.inj hr
      obtain ⟨-,hl,hout⟩ := ho
      exact outcome_addM5 hs hnew hl hout
    | some (.m6Withdrawal _ _ _ _) => cases hr

theorem foldlM_handleSlot {n : ℕ} {u : UnconsolidatedCtips}
    {l : List (SidechainNumber × TxCtipsInfo)} (hl : (l.map Prod.fst).Nodup)
    {r : Option DepositsOrSuccessfulWithdrawal × UnconsolidatedCtips}
    (hf : l.foldlM (h.handleSlot dbs tx n) (none,u) = .ok r) :
    Outcome h dbs tx l r.1 ∧ r.2 = updateAll dbs u l := by
  have hinit : Outcome h dbs tx [] none ∧ u = updateAll dbs u [] := ⟨rfl,rfl⟩
  refine Fallible.foldlM_prefix
    (fun done r => Outcome h dbs tx done r.1 ∧ r.2 = updateAll dbs u done) hf hinit ?_
  rintro done ⟨s,info⟩ rest t t' hsplit ⟨ho,hu⟩ hstep
  simp only [handleSlot,Fallible.bind_ok,Fallible.pure_ok] at hstep
  obtain ⟨res,hres,rfl⟩ := hstep
  have hnew : s ∉ done.map Prod.fst := by
    intro hm
    rw [hsplit,List.map_append,List.map_cons,List.nodup_append] at hl
    exact hl.2.2 s hm s (List.mem_cons_self ..) rfl
  exact ⟨outcome_step ho hnew hres,by rw [hu,updateAll_snoc]⟩

theorem foldlM_handleSlot_deposits {n : ℕ} {u : UnconsolidatedCtips}
    {l : List (SidechainNumber × TxCtipsInfo)}
    (hl : ∀ e ∈ l, ∃ deposit, SlotDeposits dbs tx e.1 e.2 deposit) :
    ∃ r, l.foldlM (h.handleSlot dbs tx n) (none,u) = .ok r := by
  have hex := Fallible.foldlM_succeeds (f := h.handleSlot dbs tx n) (l := l) (s := (none,u))
    (fun _ r => ∀ s m q d, r.1 ≠ some (.m6Withdrawal s m q d)) (by simp) ?_
  · obtain ⟨r,hr,-⟩ := hex
    exact ⟨r,hr⟩
  · rintro done ⟨s,info⟩ rest ⟨res,u'⟩ hsplit hno
    obtain ⟨deposit,hs⟩ := hl (s,info) (by simp [hsplit])
    have hadd : ∃ deposits d, addM5 s deposit (newCtipOf dbs s info) res =
        .ok (.m5Deposits deposits d) := by
      match res with
      | none => exact ⟨_,_,rfl⟩
      | some (.m5Deposits _ _) => exact ⟨_,_,rfl⟩
      | some (.m6Withdrawal s m q d) => exact absurd rfl (hno s m q d)
    obtain ⟨deposits,d,hadd⟩ := hadd
    have hc : h.classify dbs tx n res s info = .ok (.m5Deposits deposits d) :=
      classify_ok.mpr (.inr ⟨deposit,hs,hadd⟩)
    exact ⟨_,by simp only [handleSlot,hc]; rfl,by simp⟩

theorem handleM5M6_ok {u : UnconsolidatedCtips}
    {r : Option DepositsOrSuccessfulWithdrawal × UnconsolidatedCtips} :
    h.handleM5M6 dbs u tx = .ok r → ∃ infos, h.fillCtips dbs u tx = .ok infos ∧
      Outcome h dbs tx infos.toList r.1 ∧ r.2 = updateAll dbs u infos.toList := by
  intro hr
  obtain ⟨infos,hinfos,hfold⟩ := Fallible.bind_ok.mp hr
  exact ⟨infos,hinfos,foldlM_handleSlot (FinMap.nodup_keys infos) hfold⟩

theorem handleM5M6_succeeds {u : UnconsolidatedCtips} {infos : FinMap SidechainNumber TxCtipsInfo}
    (hinfos : h.fillCtips dbs u tx = .ok infos)
    (hslots : (∀ s info, infos.get? s = some info → ∃ deposit, SlotDeposits dbs tx s info deposit) ∨
      ∃ s info d, infos.toList = [(s,info)] ∧ info.ctipOutput.value < info.treasuryValueIn ∧
        h.makeM6 dbs tx s info = .ok d) :
    ∃ r, h.handleM5M6 dbs u tx = .ok r := by
  rcases hslots with hall | ⟨s,info,d,hl,hlt,hd⟩
  · obtain ⟨r,hr⟩ := foldlM_handleSlot_deposits (h := h) (n := infos.toList.length) (u := u)
      (l := infos.toList) (fun e he => hall e.1 e.2 (FinMap.mem_toList.mp he))
    exact ⟨r,Fallible.bind_ok.mpr ⟨infos,hinfos,hr⟩⟩
  · have hc : h.classify dbs tx infos.toList.length none s info =
        .ok (.m6Withdrawal d.sidechainNumber d.removedPendingWithdrawal
          (dbs.count d.sidechainNumber) d) := classify_ok.mpr (.inl ⟨hlt,d,hd,rfl⟩)
    have hstep : ∃ r, infos.toList.foldlM (h.handleSlot dbs tx infos.toList.length) (none,u) =
        .ok r := by
      rw [hl] at hc ⊢
      simp only [List.foldlM_cons,handleSlot,hc,Fallible.ok_bind,List.foldlM_nil]
      exact ⟨_,rfl⟩
    obtain ⟨r,hr⟩ := hstep
    exact ⟨r,Fallible.bind_ok.mpr ⟨infos,hinfos,hr⟩⟩

end Classify

section Unconsolidated

/-- The treasury output of a slot becomes an unconsolidated one. -/
def Leaves (dbs : ActiveSidechainDbs) (e : SidechainNumber × TxCtipsInfo) : Prop :=
  isNewCtip dbs e.1 e.2 = false

theorem updateUnconsolidated_get? (dbs : ActiveSidechainDbs) (u : UnconsolidatedCtips)
    (e : SidechainNumber × TxCtipsInfo) (a : OutPoint) :
    (Leaves dbs e → e.2.ctipOutput.outpoint = a →
      (updateUnconsolidated dbs u e.1 e.2).byOutpoint.get? a = some (e.1,e.2.ctipOutput.value)) ∧
    ((Leaves dbs e → e.2.ctipOutput.outpoint ≠ a) →
      (updateUnconsolidated dbs u e.1 e.2).byOutpoint.get? a =
        if a ∈ e.2.unconsolidatedCtipInputs.map Ctip.outpoint then none else u.byOutpoint.get? a) := by
  unfold updateUnconsolidated Leaves
  cases hn : isNewCtip dbs e.1 e.2 with
  | true => simp [UnconsolidatedCtips.byOutpoint_foldl_remove]
  | false =>
    simp only [Bool.false_eq_true,if_false,UnconsolidatedCtips.byOutpoint_insert,
      UnconsolidatedCtips.byOutpoint_foldl_remove,true_implies]
    exact ⟨fun ha => by simp [ha],fun ha => by simp [ha]⟩

/-- After a transaction the unconsolidated outputs are the old ones that it does
not spend and the new ones that are no ctips. -/
theorem updateAll_get? {dbs : ActiveSidechainDbs} {u : UnconsolidatedCtips} {t : Txid}
    {l : List (SidechainNumber × TxCtipsInfo)}
    (hout : ∀ e ∈ l, e.2.ctipOutput.outpoint.txid = t)
    (hin : ∀ e ∈ l, ∀ c ∈ e.2.unconsolidatedCtipInputs, c.outpoint.txid ≠ t)
    (hinj : l.Pairwise (fun e e' => e.2.ctipOutput.outpoint ≠ e'.2.ctipOutput.outpoint))
    (hfresh : ∀ o, o.txid = t → u.byOutpoint.get? o = none)
    (o : OutPoint) (s : SidechainNumber) (v : ℕ) :
    (updateAll dbs u l).byOutpoint.get? o = some (s,v) ↔
      ((∀ e ∈ l, o ∉ e.2.unconsolidatedCtipInputs.map Ctip.outpoint) ∧
        u.byOutpoint.get? o = some (s,v)) ∨
      ∃ e ∈ l, Leaves dbs e ∧ e.1 = s ∧ e.2.ctipOutput = ⟨o,v⟩ := by
  induction l using List.reverseRecOn with
  | nil => simp [updateAll]
  | append_singleton l e ih =>
    have hpair := List.pairwise_append.mp hinj
    have ih := ih (fun e he => hout e (List.mem_append_left _ he))
      (fun e he => hin e (List.mem_append_left _ he)) hpair.1
    obtain ⟨hnew,hold⟩ := updateUnconsolidated_get? dbs (updateAll dbs u l) e o
    have hmem : e ∈ l++[e] := by simp
    rw [updateAll_snoc]
    by_cases hcr : Leaves dbs e ∧ e.2.ctipOutput.outpoint = o
    · -- the outpoint is the new output of this slot, and of no other
      rw [hnew hcr.1 hcr.2]
      have hnone : u.byOutpoint.get? o = none := hfresh o (by rw [← hcr.2]; exact hout e hmem)
      constructor
      · intro heq
        obtain ⟨rfl,rfl⟩ := Prod.mk.inj (Option.some.inj heq)
        exact .inr ⟨e,hmem,hcr.1,rfl,by rw [← hcr.2]⟩
      · rintro (⟨-,hu⟩ | ⟨e',he',hl',rfl,hc'⟩)
        · rw [hnone] at hu; cases hu
        · rcases List.mem_append.mp he' with he' | he'
          · have hne := hpair.2.2 e' he' e (List.mem_singleton_self e)
            rw [hc'] at hne
            exact absurd hcr.2.symm hne
          · obtain rfl := List.mem_singleton.mp he'
            rw [hc']
    · have hne : Leaves dbs e → e.2.ctipOutput.outpoint ≠ o := fun hl he => hcr ⟨hl,he⟩
      rw [hold hne]
      by_cases hsp : o ∈ e.2.unconsolidatedCtipInputs.map Ctip.outpoint
      · rw [if_pos hsp]
        constructor
        · intro heq; cases heq
        · rintro (⟨hns,-⟩ | ⟨e',he',-,-,hc'⟩)
          · exact absurd hsp (hns e hmem)
          · obtain ⟨c,hc,rfl⟩ := List.mem_map.mp hsp
            have ht := hout e' he'
            rw [hc'] at ht
            exact absurd ht (hin e hmem c hc)
      · rw [if_neg hsp,ih]
        constructor
        · rintro (⟨hns,hu⟩ | ⟨e',he',hl',hs',hc'⟩)
          · refine .inl ⟨?_,hu⟩
            intro e' he'
            rcases List.mem_append.mp he' with he' | he'
            · exact hns e' he'
            · obtain rfl := List.mem_singleton.mp he'
              exact hsp
          · exact .inr ⟨e',List.mem_append_left _ he',hl',hs',hc'⟩
        · rintro (⟨hns,hu⟩ | ⟨e',he',hl',hs',hc'⟩)
          · exact .inl ⟨fun e' he' => hns e' (List.mem_append_left _ he'),hu⟩
          · rcases List.mem_append.mp he' with he' | he'
            · exact .inr ⟨e',he',hl',hs',hc'⟩
            · obtain rfl := List.mem_singleton.mp he'
              exact absurd (by rw [hc']) (hne hl')

end Unconsolidated

section SlotInfo

variable [Bitcoin] {h : BlockHandler} {dbs : ActiveSidechainDbs} {u : UnconsolidatedCtips}
  {tx : Transaction}

theorem slotInfo_output {s : SidechainNumber} {info : TxCtipsInfo}
    (hi : slotInfo h dbs u tx s = some info) :
    dbs.sidechain.contains s = true ∧ ∃ n out, tx.output[n]? = some out ∧
      h.params.opDrivechain.parse out.scriptPubkey = some s ∧
      info = addInputs dbs u s tx.input (outputInfo tx.computeTxid (out,n)) ∧
      (out,n) ∈ h.params.opDrivechain.slotOutputs tx.output.zipIdx s := by
  unfold slotInfo at hi
  by_cases hact : dbs.sidechain.contains s = true
  · rw [if_pos hact] at hi
    obtain ⟨⟨out,n⟩,he,rfl⟩ := Option.map_eq_some_iff.mp hi
    have hmem := List.mem_of_mem_head? he
    obtain ⟨hz,hp⟩ := List.mem_filter.mp hmem
    refine ⟨hact,n,out,?_,by simpa using hp,rfl,hmem⟩
    simpa [List.mem_zipIdx_iff_getElem?] using hz
  · rw [if_neg hact] at hi
    cases hi

theorem slotInfo_of_mem {s : SidechainNumber} {out : TxOut} {n : ℕ}
    (hact : dbs.sidechain.contains s = true)
    (hone : (h.params.opDrivechain.slotOutputs tx.output.zipIdx s).length ≤ 1)
    (hmem : (out,n) ∈ h.params.opDrivechain.slotOutputs tx.output.zipIdx s) :
    ∃ info, slotInfo h dbs u tx s = some info ∧
      info.ctipOutput = ⟨⟨tx.computeTxid,n⟩,out.value⟩ := by
  unfold slotInfo
  cases hl : h.params.opDrivechain.slotOutputs tx.output.zipIdx s with
  | nil => rw [hl] at hmem; cases hmem
  | cons e l =>
    rw [hl,List.length_cons] at hone
    have hnil : l = [] := List.length_eq_zero_iff.mp (by omega)
    rw [hl,hnil,List.mem_singleton] at hmem
    subst hmem
    rw [if_pos hact]
    exact ⟨_,rfl,rfl⟩

theorem slotInfo_outpoint_inj {s s' : SidechainNumber} {info info' : TxCtipsInfo}
    (hi : slotInfo h dbs u tx s = some info) (hi' : slotInfo h dbs u tx s' = some info')
    (he : info.ctipOutput.outpoint = info'.ctipOutput.outpoint) : s = s' := by
  obtain ⟨-,n,out,hn,hp,rfl,-⟩ := slotInfo_output hi
  obtain ⟨-,n',out',hn',hp',rfl,-⟩ := slotInfo_output hi'
  have hnn : n = n' := congrArg OutPoint.vout he
  subst hnn
  obtain rfl := Option.some.inj (hn.symm.trans hn')
  exact Option.some.inj (hp.symm.trans hp')

theorem slotInfos_outpoint_ne {infos : FinMap SidechainNumber TxCtipsInfo}
    (hslot : ∀ e ∈ infos.toList, slotInfo h dbs u tx e.1 = some e.2) :
    infos.toList.Pairwise
      (fun e e' => e.2.ctipOutput.outpoint ≠ e'.2.ctipOutput.outpoint) :=
  infos.pairwise_toList (fun e he e' he' hne heq =>
    hne (slotInfo_outpoint_inj (hslot e he) (hslot e' he') heq))

theorem slotInfo_txid {s : SidechainNumber} {info : TxCtipsInfo}
    (hi : slotInfo h dbs u tx s = some info) :
    info.ctipOutput.outpoint.txid = tx.computeTxid := by
  obtain ⟨-,n,out,-,-,rfl,-⟩ := slotInfo_output hi
  rfl

/-- The unconsolidated outputs after an accepted transaction. -/
theorem updateAll_fillCtips {infos : FinMap SidechainNumber TxCtipsInfo}
    (hinfos : h.fillCtips dbs u tx = .ok infos)
    (hfresh : ∀ o, o.txid = tx.computeTxid → u.byOutpoint.get? o = none)
    (hindex : ∀ o e, u.byOutpoint.get? o = some e → dbs.ctipOutpointToValueSeq.get? o = none)
    (o : OutPoint) (s : SidechainNumber) (v : ℕ) :
    (updateAll dbs u infos.toList).byOutpoint.get? o = some (s,v) ↔
      (o ∉ tx.input.map TxIn.previousOutput ∧ u.byOutpoint.get? o = some (s,v)) ∨
      ∃ info, slotInfo h dbs u tx s = some info ∧ isNewCtip dbs s info = false ∧
        info.ctipOutput = ⟨o,v⟩ := by
  obtain ⟨hform,hget⟩ := fillCtips_ok.mp hinfos
  have hslot : ∀ e ∈ infos.toList, slotInfo h dbs u tx e.1 = some e.2 := by
    intro e he
    rw [← hget e.1]
    exact FinMap.mem_toList.mp he
  have huncons : ∀ e ∈ infos.toList, ∀ c, c ∈ e.2.unconsolidatedCtipInputs ↔
      c ∈ dbs.unconsolidatedInputs u e.1 tx.input := by
    intro e he c
    obtain ⟨-,n,out,-,-,hinfo,-⟩ := slotInfo_output (hslot e he)
    rw [hinfo]
    exact mem_asSet
  rw [updateAll_get? (t := tx.computeTxid) (fun e he => slotInfo_txid (hslot e he)) ?_ ?_ hfresh]
  · refine or_congr ?_ ?_
    · refine and_congr_left ?_
      intro hu
      constructor
      · intro hns hmem
        obtain ⟨i,hi,rfl⟩ := List.mem_map.mp hmem
        have hc : ⟨i.previousOutput,v⟩ ∈ dbs.unconsolidatedInputs u s tx.input :=
          ActiveSidechainDbs.mem_unconsolidatedInputs.mpr ⟨⟨i,hi,rfl⟩,hindex _ _ hu,hu⟩
        cases hsi : slotInfo h dbs u tx s with
        | none =>
          rw [(hform.replaced s hsi).2] at hc
          cases hc
        | some info =>
          have he : (s,info) ∈ infos.toList := FinMap.mem_toList.mpr ((hget s).trans hsi)
          exact hns _ he (List.mem_map.mpr ⟨_,(huncons _ he _).mpr hc,rfl⟩)
      · intro hns e he hmem
        obtain ⟨c,hc,rfl⟩ := List.mem_map.mp hmem
        obtain ⟨⟨i,hi,ho⟩,-⟩ := ActiveSidechainDbs.mem_unconsolidatedInputs.mp ((huncons e he c).mp hc)
        exact hns (List.mem_map.mpr ⟨i,hi,ho⟩)
    · constructor
      · rintro ⟨⟨a,info⟩,he,hl,rfl,hc⟩
        exact ⟨info,hslot _ he,hl,hc⟩
      · rintro ⟨info,hi,hl,hc⟩
        exact ⟨(s,info),FinMap.mem_toList.mpr ((hget s).trans hi),hl,rfl,hc⟩
  · intro e he c hc ht
    obtain ⟨-,-,hu⟩ := ActiveSidechainDbs.mem_unconsolidatedInputs.mp ((huncons e he c).mp hc)
    rw [hfresh c.outpoint ht] at hu
    cases hu
  · exact slotInfos_outpoint_ne hslot

end SlotInfo

end BlockHandler
end Bip300301Enforcer
