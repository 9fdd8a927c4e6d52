import Bip300301Enforcer.Rejections
import Bip300301Enforcer.Unsettled

/-! The transactions at the end of a produced block as the validator reads them: withdrawals
that spend all of a slot's treasury, and a consolidation of several slots. -/
namespace Bip300301Enforcer
open Lib BlockHandler ActiveSidechainDbs

def treasuryOf (dbs : ActiveSidechainDbs) (u : UnconsolidatedCtips) (s : SidechainNumber) : List Ctip :=
  (dbs.ctip.get? s).toList++u.ofSlot s

section Inputs

variable {T : Txid → Prop} {dbs : ActiveSidechainDbs} {u : UnconsolidatedCtips}

theorem Unsettled.index_ctip (hu : Unsettled T dbs u) {s : SidechainNumber} {c : Ctip}
    (hc : dbs.ctip.get? s = some c) :
    ∃ n, dbs.ctipOutpointToValueSeq.get? c.outpoint = some (s,c.value,n) := by
  obtain ⟨n,t,-,ht,ho,hv⟩ := (hu.tables.history s).last hc
  exact ⟨n,(hu.indexed _ _ _ _).mpr ⟨t,ht,ho,hv⟩⟩

/-- The ctips that are spent with all of a slot's treasury. -/
theorem Unsettled.consolidatedInputs_treasuryOf (hu : Unsettled T dbs u) (s a : SidechainNumber) :
    dbs.consolidatedInputs a (spendAll (treasuryOf dbs u s)) =
      if s = a then (dbs.ctip.get? a).toList else [] := by
  have hrest : (u.ofSlot s).filterMap (fun c : Ctip => dbs.consolidatedInput a (.spending c.outpoint)) = [] := by
    refine List.filterMap_eq_nil_iff.mpr (fun c hc => ?_)
    have hidx := (hu.noCtip _ _ _ (hu.inStep.get?_of_mem hc)).2.1
    simp only [consolidatedInput,TxIn.spending,hidx]
  rw [consolidatedInputs,spendAll,treasuryOf,List.filterMap_map,List.filterMap_append]
  change List.filterMap (fun c : Ctip => dbs.consolidatedInput a (.spending c.outpoint)) _++
    (u.ofSlot s).filterMap (fun c : Ctip => dbs.consolidatedInput a (.spending c.outpoint)) = _
  rw [hrest,List.append_nil]
  cases hc : dbs.ctip.get? s with
  | none =>
    split
    · rename_i hs
      rw [← hs,hc]
      rfl
    · rfl
  | some c =>
    obtain ⟨n,hidx⟩ := hu.index_ctip hc
    have hread : dbs.consolidatedInput a (.spending c.outpoint) = if s = a then some c else none := by
      simp only [consolidatedInput,TxIn.spending,hidx]
    rw [Option.toList_some,List.filterMap_cons,List.filterMap_nil,hread]
    by_cases hs : s = a
    · subst hs
      simp [hc]
    · simp [hs]

/-- The other treasury outputs that are. -/
theorem Unsettled.unconsolidatedInputs_treasuryOf (hu : Unsettled T dbs u) (s a : SidechainNumber) :
    dbs.unconsolidatedInputs u a (spendAll (treasuryOf dbs u s)) =
      if s = a then u.ofSlot a else [] := by
  have hctip : (dbs.ctip.get? s).toList.filterMap
      (fun c : Ctip => dbs.unconsolidatedInput u a (.spending c.outpoint)) = [] := by
    cases hc : dbs.ctip.get? s with
    | none => rfl
    | some c =>
      obtain ⟨n,hidx⟩ := hu.index_ctip hc
      have hread : dbs.unconsolidatedInput u a (.spending c.outpoint) = none := by
        simp only [unconsolidatedInput,TxIn.spending,hidx]
      rw [Option.toList_some,List.filterMap_cons,hread,List.filterMap_nil]
  have hread : ∀ c ∈ u.ofSlot s, dbs.unconsolidatedInput u a (.spending c.outpoint) =
      if s = a then some c else none := by
    intro c hc
    have hget := hu.inStep.get?_of_mem hc
    have hidx := (hu.noCtip _ _ _ hget).2.1
    simp only [unconsolidatedInput,TxIn.spending,hidx,hget]
  rw [unconsolidatedInputs,spendAll,treasuryOf,List.filterMap_map,List.filterMap_append]
  change (dbs.ctip.get? s).toList.filterMap (fun c : Ctip => dbs.unconsolidatedInput u a (.spending c.outpoint))++
    (u.ofSlot s).filterMap (fun c : Ctip => dbs.unconsolidatedInput u a (.spending c.outpoint)) = _
  rw [hctip,List.nil_append,List.filterMap_congr hread]
  split
  · rename_i hs
    rw [hs,List.filterMap_some]
  · exact List.filterMap_eq_nil_iff.mpr (fun _ _ => rfl)

theorem Unsettled.consolidatedInputs_flatMap (hu : Unsettled T dbs u) {slots : List SidechainNumber}
    (hslots : slots.Nodup) (a : SidechainNumber) :
    dbs.consolidatedInputs a (spendAll (slots.flatMap (treasuryOf dbs u))) =
      if a ∈ slots then (dbs.ctip.get? a).toList else [] := by
  induction slots with
  | nil => rfl
  | cons s slots ih =>
    rw [List.nodup_cons] at hslots
    have happ : dbs.consolidatedInputs a (spendAll ((s::slots).flatMap (treasuryOf dbs u))) =
        dbs.consolidatedInputs a (spendAll (treasuryOf dbs u s))++
          dbs.consolidatedInputs a (spendAll (slots.flatMap (treasuryOf dbs u))) := by
      simp only [consolidatedInputs,spendAll,List.flatMap_cons,List.map_append,List.filterMap_append]
    rw [happ,ih hslots.2,hu.consolidatedInputs_treasuryOf]
    by_cases hs : s = a
    · subst hs
      simp [hslots.1]
    · simp [hs,Ne.symm hs]

theorem Unsettled.unconsolidatedInputs_flatMap (hu : Unsettled T dbs u)
    {slots : List SidechainNumber} (hslots : slots.Nodup) (a : SidechainNumber) :
    dbs.unconsolidatedInputs u a (spendAll (slots.flatMap (treasuryOf dbs u))) =
      if a ∈ slots then u.ofSlot a else [] := by
  induction slots with
  | nil => rfl
  | cons s slots ih =>
    rw [List.nodup_cons] at hslots
    have happ : dbs.unconsolidatedInputs u a (spendAll ((s::slots).flatMap (treasuryOf dbs u))) =
        dbs.unconsolidatedInputs u a (spendAll (treasuryOf dbs u s))++
          dbs.unconsolidatedInputs u a (spendAll (slots.flatMap (treasuryOf dbs u))) := by
      simp only [unconsolidatedInputs,spendAll,List.flatMap_cons,List.map_append,List.filterMap_append]
    rw [happ,ih hslots.2,hu.unconsolidatedInputs_treasuryOf]
    by_cases hs : s = a
    · subst hs
      simp [hslots.1]
    · simp [hs,Ne.symm hs]

/-- All of the treasuries of several slots are spent. -/
structure SpendsTreasuries (h : BlockHandler) (dbs : ActiveSidechainDbs) (u : UnconsolidatedCtips)
    (tx : Transaction) (slots : List SidechainNumber) : Prop where
  nodup : slots.Nodup
  input : tx.input = spendAll (slots.flatMap (treasuryOf dbs u))
  active : ∀ s ∈ slots, dbs.sidechain.contains s = true
  output : ∀ s ∈ slots, h.params.opDrivechain.slotOutputs tx.output.zipIdx s ≠ []

variable [Bitcoin] {h : BlockHandler} {tx : Transaction} {slots : List SidechainNumber}

namespace SpendsTreasuries

theorem slotInfo_some (hs : SpendsTreasuries h dbs u tx slots) (hu : Unsettled T dbs u)
    {s : SidechainNumber} (hmem : s ∈ slots) {out : TxOut} {n : ℕ}
    (hhead : (h.params.opDrivechain.slotOutputs tx.output.zipIdx s).head? = some (out,n)) :
    ∃ info, slotInfo h dbs u tx s = some info ∧ info.consolidatedCtipInput = dbs.ctip.get? s ∧
      info.unconsolidatedCtipInputs.Perm (u.ofSlot s) ∧
      info.ctipOutput = ⟨⟨tx.computeTxid,n⟩,out.value⟩ := by
  have hcons : dbs.consolidatedInputs s tx.input = (dbs.ctip.get? s).toList := by
    rw [hs.input,hu.consolidatedInputs_flatMap hs.nodup,if_pos hmem]
  have huncons : dbs.unconsolidatedInputs u s tx.input = u.ofSlot s := by
    rw [hs.input,hu.unconsolidatedInputs_flatMap hs.nodup,if_pos hmem]
  refine ⟨addInputs dbs u s tx.input (outputInfo tx.computeTxid (out,n)),?_,?_,?_,rfl⟩
  · rw [slotInfo,if_pos (hs.active s hmem),hhead,Option.map_some]
  · simp only [addInputs,hcons]
    cases dbs.ctip.get? s <;> rfl
  · simp only [addInputs,huncons]
    exact asSet_perm (hu.inStep.nodup s)

theorem formed (hs : SpendsTreasuries h dbs u tx slots) (hu : Unsettled T dbs u)
    (hone : ∀ a, dbs.sidechain.contains a = true →
      (h.params.opDrivechain.slotOutputs tx.output.zipIdx a).length ≤ 1) :
    TreasuryFormed h dbs u tx := by
  refine ⟨hone,fun a => ?_,fun a ha => ?_⟩
  · rw [hs.input,hu.consolidatedInputs_flatMap hs.nodup]
    split
    · cases dbs.ctip.get? a <;> simp
    · simp
  · rw [hs.input,hu.consolidatedInputs_flatMap hs.nodup,hu.unconsolidatedInputs_flatMap hs.nodup]
    have hno : a ∉ slots := by
      intro hmem
      obtain ⟨e,he⟩ := Option.isSome_iff_exists.mp (List.isSome_head?.mpr (hs.output a hmem))
      obtain ⟨info,hinfo,-⟩ := hs.slotInfo_some hu hmem he
      rw [ha] at hinfo
      cases hinfo
    rw [if_neg hno,if_neg hno]
    exact ⟨rfl,rfl⟩

end SpendsTreasuries

omit [Bitcoin] in
theorem treasuryValueIn_eq {info : TxCtipsInfo} {s : SidechainNumber}
    (hc : info.consolidatedCtipInput = dbs.ctip.get? s)
    (hu : info.unconsolidatedCtipInputs.Perm (u.ofSlot s)) :
    info.treasuryValueIn = ((treasuryOf dbs u s).map Ctip.value).sum := by
  rw [TxCtipsInfo.treasuryValueIn,hc,(hu.map Ctip.value).sum_eq,treasuryOf,List.map_append,
    List.sum_append]
  cases dbs.ctip.get? s <;> simp

end Inputs

section Accepted

variable {h : BlockHandler} {acc acc' : TxState} {tx : Transaction} {accepted : BmmCommitments}
  {parent hash : BlockHash}

theorem parseM8Tx_of_script {op : OpDrivechain} {s : SidechainNumber} {v : ℕ} {rest : List TxOut}
    (hout : tx.output = ⟨v,op.script s⟩::rest) : parseM8Tx tx = none := by
  simp [parseM8Tx,hout,M8BmmRequest.parse,OpDrivechain.script,Parse.tag,M8BmmRequest.head]

variable [Bitcoin]

theorem connectTx_succeeds {r : Option DepositsOrSuccessfulWithdrawal × UnconsolidatedCtips}
    (hm8 : parseM8Tx tx = none) (hr : h.handleM5M6 acc.dbs acc.unconsolidatedCtips tx = .ok r) :
    ∃ acc', h.connectTx accepted parent hash acc tx = .ok acc' :=
  connectTx_iff.mpr ⟨⟨r,hr⟩,⟨false,by simp only [handleM8,hm8]⟩,
    acc.bmmRequestSlots,by simp only [claimBmmSlot,hm8]⟩

end Accepted

section Withdrawal

def Payable (threshold : UInt16) (pending : FinMap SidechainNumber PendingM6ids) (s : SidechainNumber)
    (m6id : M6id) : Prop :=
  ∃ p info, pending.get? s = some p ∧ p.get? m6id = some info ∧ threshold < info.voteCount

/-- No payout of a bundle is read as a treasury output of an active slot. -/
def NoTreasuryPayout (op : OpDrivechain) (pending : FinMap SidechainNumber PendingM6ids)
    (m : BlindedM6) : Prop :=
  ∀ out ∈ m.tx.output.tail, ∀ a, op.parse out.scriptPubkey = some a → pending.contains a = false

/-- What paying a bundle does to the state of a block. -/
structure Paid (acc acc' : TxState) (s : SidechainNumber) (m6id : M6id) (c : Ctip) : Prop where
  ctip : acc'.dbs.ctip = acc.dbs.ctip.insert s c
  unconsolidated : acc'.unconsolidatedCtips = (acc.unconsolidatedCtips.removeSidechain s).2
  sidechain : acc'.dbs.sidechain = acc.dbs.sidechain
  pending : ∃ p, acc.dbs.pendingM6ids.get? s = some p ∧
    acc'.dbs.pendingM6ids = acc.dbs.pendingM6ids.insert s (p.remove m6id)

theorem slotOutputs_cons (op : OpDrivechain) (s a : SidechainNumber) (v n : ℕ) (l : List TxOut) :
    op.slotOutputs (List.zipIdx (⟨v,op.script s⟩::l) n) a =
      (if s = a then [(⟨v,op.script s⟩,n)] else [])++op.slotOutputs (l.zipIdx (n+1)) a := by
  rw [OpDrivechain.slotOutputs,List.zipIdx_cons,List.filter_cons]
  by_cases hs : s = a
  · simp [hs,OpDrivechain.slotOutputs]
  · simp [hs,OpDrivechain.slotOutputs]

theorem slotOutputs_eq_nil {op : OpDrivechain} {l : List TxOut} {n : ℕ} {a : SidechainNumber} :
    op.slotOutputs (l.zipIdx n) a = [] ↔ ∀ out ∈ l, op.parse out.scriptPubkey ≠ some a := by
  rw [OpDrivechain.slotOutputs,List.filter_eq_nil_iff]
  constructor
  · intro hall out hout
    obtain ⟨i,hi,rfl⟩ := List.mem_iff_getElem.mp hout
    have hmem : (l[i],n+i) ∈ l.zipIdx n :=
      List.mk_add_mem_zipIdx_iff_getElem?.mpr (List.getElem?_eq_getElem hi)
    simpa using hall _ hmem
  · rintro hall ⟨out,i⟩ he
    obtain ⟨-,-,hout⟩ := List.mem_zipIdx he
    have hmem : out ∈ l := by
      rw [hout]
      exact List.getElem_mem _
    simpa using hall out hmem

variable [Bitcoin] {h : BlockHandler} {T : Txid → Prop} {acc acc' : TxState} {s : SidechainNumber}
  {c : Ctip} {m : BlindedM6} {blinded : Transaction} {accepted : BmmCommitments}
  {parent hash : BlockHash}

theorem BlindedM6.demand_pos (hm : BlindedM6.tryFrom blinded = .ok m) : 0 < m.demand := by
  unfold BlindedM6.tryFrom at hm
  simp only [Fallible.bind_ok,Fallible.ensure_ok,Fallible.pure_ok,decide_eq_true_eq] at hm
  obtain ⟨_,-,_,-,_,-,payout,-,_,hpos,fee,-,rfl⟩ := hm
  simp only [BlindedM6.demand]
  omega

/-- The treasury of a slot suffices for a bundle. -/
structure Suffices (T : Txid → Prop) (acc : TxState) (s : SidechainNumber) (c : Ctip)
    (blinded : Transaction) (m : BlindedM6) : Prop where
  unsettled : Unsettled T acc.dbs acc.unconsolidatedCtips
  ctip : acc.dbs.ctip.get? s = some c
  stored : BlindedM6.tryFrom blinded = .ok m
  amount : ((c::acc.unconsolidatedCtips.ofSlot s).map Ctip.value).sum < 2^64
  enough : m.demand ≤ ((c::acc.unconsolidatedCtips.ofSlot s).map Ctip.value).sum

namespace Suffices

variable (hs : Suffices T acc s c blinded m)
include hs

theorem active : acc.dbs.sidechain.contains s = true :=
  hs.unsettled.tables.ctipActive s ((FinMap.contains_iff _ _).mpr ⟨c,hs.ctip⟩)

theorem treasuryOf_eq : treasuryOf acc.dbs acc.unconsolidatedCtips s =
    c::acc.unconsolidatedCtips.ofSlot s := by
  rw [treasuryOf,hs.ctip]
  rfl

theorem spends : SpendsTreasuries h acc.dbs acc.unconsolidatedCtips
    (m.m6Tx h.params.opDrivechain s (c::acc.unconsolidatedCtips.ofSlot s)) [s] := by
  refine ⟨List.nodup_singleton s,?_,?_,?_⟩
  · rw [List.flatMap_cons,List.flatMap_nil,List.append_nil,hs.treasuryOf_eq]
    rfl
  · intro a ha
    rw [List.mem_singleton.mp ha]
    exact hs.active
  · intro a ha
    rw [List.mem_singleton.mp ha,BlindedM6.m6Tx,slotOutputs_cons,if_pos rfl]
    simp

theorem slotInfo_some : ∃ info, slotInfo h acc.dbs acc.unconsolidatedCtips
      (m.m6Tx h.params.opDrivechain s (c::acc.unconsolidatedCtips.ofSlot s)) s = some info ∧
    info.consolidatedCtipInput = some c ∧
    info.unconsolidatedCtipInputs.Perm (acc.unconsolidatedCtips.ofSlot s) ∧
    info.ctipOutput = ⟨⟨(m.m6Tx h.params.opDrivechain s
      (c::acc.unconsolidatedCtips.ofSlot s)).computeTxid,0⟩,
      ((c::acc.unconsolidatedCtips.ofSlot s).map Ctip.value).sum-m.demand⟩ ∧
    info.treasuryValueIn = ((c::acc.unconsolidatedCtips.ofSlot s).map Ctip.value).sum := by
  have hhead : (h.params.opDrivechain.slotOutputs (m.m6Tx h.params.opDrivechain s
      (c::acc.unconsolidatedCtips.ofSlot s)).output.zipIdx s).head? =
        some (⟨((c::acc.unconsolidatedCtips.ofSlot s).map Ctip.value).sum-m.demand,
          h.params.opDrivechain.script s⟩,0) := by
    rw [BlindedM6.m6Tx,slotOutputs_cons,if_pos rfl]
    rfl
  obtain ⟨info,hinfo,hcons,hperm,hout⟩ :=
    hs.spends.slotInfo_some hs.unsettled (List.mem_singleton_self s) hhead
  have hvalue := treasuryValueIn_eq hcons hperm
  rw [hs.treasuryOf_eq] at hvalue
  exact ⟨info,hinfo,hcons.trans hs.ctip,hperm,hout,hvalue⟩

theorem computeM6id_eq : h.params.opDrivechain.computeM6id
    (m.m6Tx h.params.opDrivechain s (c::acc.unconsolidatedCtips.ofSlot s))
    ((c::acc.unconsolidatedCtips.ofSlot s).map Ctip.value).sum =
      .ok (m.reblinded.computeTxid,s) := by
  have hinto := BlindedM6.intoM6_eq h.params.opDrivechain s hs.amount hs.enough
  have hid := BlindedM6.computeM6id_intoM6 hs.stored hinto
  rw [List.map_cons,List.sum_cons]
  exact hid

/-- The validator accepts the withdrawal when it finds its bundle and no other treasury output. -/
theorem succeeds (hpay : Payable h.thresholds.withdrawalBundleInclusionThreshold acc.dbs.pendingM6ids s
      m.reblinded.computeTxid)
    (hout : NoTreasuryPayout h.params.opDrivechain acc.dbs.pendingM6ids m) :
    ∃ acc', h.connectTx accepted parent hash acc
      (m.m6Tx h.params.opDrivechain s (c::acc.unconsolidatedCtips.ofSlot s)) = .ok acc' := by
  obtain ⟨info,hinfo,hcons,hperm,houtput,hvalue⟩ := hs.slotInfo_some (h := h)
  have hothers : ∀ a, acc.dbs.sidechain.contains a = true →
      h.params.opDrivechain.slotOutputs (m.tx.output.tail.zipIdx 1) a = [] := by
    intro a ha
    refine slotOutputs_eq_nil.mpr (fun out hmem hp => ?_)
    rw [← hs.unsettled.tables.pending,hout out hmem a hp] at ha
    cases ha
  obtain ⟨infos,hfill,hget⟩ := fillCtips_succeeds ((hs.spends (h := h)).formed hs.unsettled (by
    intro a ha
    rw [BlindedM6.m6Tx,slotOutputs_cons,hothers a ha]
    split <;> simp))
  have honly : infos = FinMap.insert .empty s info := by
    apply FinMap.ext
    intro a
    rw [hget,FinMap.get?_insert]
    split
    · rename_i ha
      rw [← ha,hinfo]
    · rename_i ha
      rw [slotInfo,FinMap.get?_empty]
      split
      · rename_i hact
        rw [BlindedM6.m6Tx,slotOutputs_cons,if_neg ha,hothers a hact]
        rfl
      · rfl
  obtain ⟨p,pinfo,hp,hpinfo,hvotes⟩ := hpay
  have hpos := BlindedM6.demand_pos hs.stored
  have henough := hs.enough
  have hlower : info.ctipOutput.value < info.treasuryValueIn := by
    rw [houtput,hvalue]
    dsimp only
    omega
  have hmade : ∃ d, h.makeM6 acc.dbs (m.m6Tx h.params.opDrivechain s
      (c::acc.unconsolidatedCtips.ofSlot s)) s info = .ok d := by
    refine ⟨⟨s,info.ctipOutput,m.reblinded.computeTxid,
      p.entries.findIdx (fun e => e.1 = m.reblinded.computeTxid),pinfo⟩,makeM6_ok.mpr ⟨c,p,?_⟩⟩
    refine ⟨rfl,rfl,hcons,?_,?_,?_,hp,?_,fun _ => hvotes⟩
    · intro i hi
      obtain ⟨a,ha,rfl⟩ := List.mem_map.mp hi
      rw [treasuryInputs,List.mem_append,List.mem_singleton]
      rcases List.mem_cons.mp ha with rfl | ha
      · exact .inr rfl
      · exact .inl (List.mem_map.mpr ⟨a,hperm.mem_iff.mpr ha,rfl⟩)
    · rw [houtput]
    · rw [hvalue]
      exact hs.computeM6id_eq
    · simp [OrderMap.getFull,hpinfo]
  obtain ⟨d,hd⟩ := hmade
  obtain ⟨r,hr⟩ := handleM5M6_succeeds hfill (.inr ⟨s,info,d,by rw [honly,FinMap.toList_singleton],
    hlower,hd⟩)
  exact connectTx_succeeds (parseM8Tx_of_script rfl) hr

/-- Paying the bundle is all that the withdrawal can do. -/
theorem withdraws (hc : h.connectTx accepted parent hash acc
      (m.m6Tx h.params.opDrivechain s (c::acc.unconsolidatedCtips.ofSlot s)) = .ok acc') :
    ∃ infos info n d p, TxDone h acc
        (m.m6Tx h.params.opDrivechain s (c::acc.unconsolidatedCtips.ofSlot s)) acc' infos
        (some (.m6Withdrawal s m.reblinded.computeTxid n d)) ∧
      infos.toList = [(s,info)] ∧
      info.unconsolidatedCtipInputs.Perm (acc.unconsolidatedCtips.ofSlot s) ∧
      info.ctipOutput = ⟨⟨(m.m6Tx h.params.opDrivechain s
        (c::acc.unconsolidatedCtips.ofSlot s)).computeTxid,0⟩,
        ((c::acc.unconsolidatedCtips.ofSlot s).map Ctip.value).sum-m.demand⟩ ∧
      d.removedPendingWithdrawal = m.reblinded.computeTxid ∧
      Withdraws h acc.dbs (m.m6Tx h.params.opDrivechain s (c::acc.unconsolidatedCtips.ofSlot s)) s info d
        c p := by
  obtain ⟨infos,res,hd⟩ := connectTx_ok hc
  obtain ⟨info,hinfo,hcons,hperm,houtput,hvalue⟩ := hs.slotInfo_some (h := h)
  have hmem : (s,info) ∈ infos.toList :=
    FinMap.mem_toList.mpr ((hd.slotInfo_eq s).trans hinfo)
  have hpos := BlindedM6.demand_pos hs.stored
  have henough := hs.enough
  have ho := hd.outcome
  match res with
  | none =>
    have hnil : infos.toList = [] := ho
    rw [hnil] at hmem
    cases hmem
  | some (.m5Deposits deposits d) =>
    obtain ⟨-,hslots,-⟩ := ho
    have hle := (hslots _ hmem).1.le
    simp only [houtput,hvalue] at hle
    omega
  | some (.m6Withdrawal s' m6id n d) =>
    obtain ⟨info',hl,-,hm,rfl,-⟩ := ho
    rw [hl,List.mem_singleton] at hmem
    obtain ⟨rfl,rfl⟩ := Prod.mk.inj hmem
    obtain ⟨c',p,hw⟩ := makeM6_ok.mp hm
    obtain rfl := Option.some.inj (hcons.symm.trans hw.spendsCtip)
    have hid := hw.m6id
    rw [hvalue,hs.computeM6id_eq] at hid
    have hid := (Prod.mk.inj (Except.ok.inj hid)).1
    exact ⟨infos,info,n,d,p,hid ▸ hd,hl,hperm,houtput,hid.symm,hw⟩

/-- What an accepted withdrawal says about the bundle, and does to the state of the block. -/
theorem paid (hreq : h.requirePayableBundles = true) (hc : h.connectTx accepted parent hash acc
      (m.m6Tx h.params.opDrivechain s (c::acc.unconsolidatedCtips.ofSlot s)) = .ok acc') :
    Payable h.thresholds.withdrawalBundleInclusionThreshold acc.dbs.pendingM6ids s
        m.reblinded.computeTxid ∧ NoTreasuryPayout h.params.opDrivechain acc.dbs.pendingM6ids m ∧
      Paid acc acc' s m.reblinded.computeTxid ⟨⟨(m.m6Tx h.params.opDrivechain s
        (c::acc.unconsolidatedCtips.ofSlot s)).computeTxid,0⟩,
        ((c::acc.unconsolidatedCtips.ofSlot s).map Ctip.value).sum-m.demand⟩ := by
  obtain ⟨infos,info,n,d,p,hd,hl,hperm,houtput,hid,hw⟩ := hs.withdraws hc
  obtain ⟨hform,hget⟩ := fillCtips_ok.mp hd.fill
  have hnew : newCtips (some (.m6Withdrawal s m.reblinded.computeTxid n d)) =
      FinMap.insert .empty s info.ctipOutput := by
    rw [newCtips,hw.slot,hw.newCtip]
  refine ⟨?_,?_,?_,?_,hd.pending.1,hd.pending.2⟩
  · refine ⟨p,d.removedPendingWithdrawalInfo,hw.pending,?_,hw.payable hreq⟩
    rw [← hid]
    exact OrderMap.getFull_get? hw.position
  · intro out hmem a hp
    by_contra hact
    rw [hs.unsettled.tables.pending,Bool.not_eq_false] at hact
    have hlen := hform.oneOutput a hact
    rw [BlindedM6.m6Tx,slotOutputs_cons,List.length_append] at hlen
    cases hrest : h.params.opDrivechain.slotOutputs (m.tx.output.tail.zipIdx 1) a with
    | nil => exact slotOutputs_eq_nil.mp hrest out hmem hp
    | cons e rest =>
      rw [hrest,List.length_cons] at hlen
      have hne : s ≠ a := by
        intro he
        simp [he] at hlen
      have hsome : slotInfo h acc.dbs acc.unconsolidatedCtips
          (m.m6Tx h.params.opDrivechain s (c::acc.unconsolidatedCtips.ofSlot s)) a ≠ none := by
        rw [slotInfo,if_pos hact,BlindedM6.m6Tx,slotOutputs_cons,if_neg hne,hrest]
        simp
      obtain ⟨info',hinfo'⟩ := Option.ne_none_iff_exists'.mp hsome
      have hmem' := FinMap.mem_toList.mpr ((hget a).trans hinfo')
      rw [hl,List.mem_singleton] at hmem'
      exact hne (Prod.mk.inj hmem').1.symm
  · apply FinMap.ext
    intro a
    rw [txDone_ctip hd,hnew,FinMap.get?_insert,FinMap.get?_insert,houtput]
    split <;> simp
  · have hstep := hs.unsettled.inStep
    obtain ⟨hin,hof⟩ := hstep.foldl_remove info.unconsolidatedCtipInputs
    obtain ⟨hin',hof'⟩ := hstep.removeSidechain s
    have hupdate : acc'.unconsolidatedCtips = info.unconsolidatedCtipInputs.foldl
        (fun u c => u.remove c.outpoint) acc.unconsolidatedCtips := by
      rw [hd.unconsolidated,hl]
      simp [updateAll,updateUnconsolidated,isNewCtip,hw.spendsCtip]
    rw [hupdate]
    refine hin.ext hin' (fun a => ?_)
    rw [hof,hof']
    split
    · rename_i ha
      subst ha
      refine List.filter_eq_nil_iff.mpr (fun e he => ?_)
      have hmem : e.outpoint ∈ info.unconsolidatedCtipInputs.map Ctip.outpoint :=
        List.mem_map.mpr ⟨e,hperm.mem_iff.mpr he,rfl⟩
      simpa using hmem
    · rename_i ha
      refine List.filter_eq_self.mpr (fun e he => decide_eq_true ?_)
      intro hmem
      obtain ⟨e',he',ho⟩ := List.mem_map.mp hmem
      have hget' := hstep.get?_of_mem (hperm.mem_iff.mp he')
      rw [ho,hstep.get?_of_mem he] at hget'
      exact ha (Prod.mk.inj (Option.some.inj hget')).1.symm

end Suffices

end Withdrawal

end Bip300301Enforcer
