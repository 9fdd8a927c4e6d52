import Bip300301Enforcer.Representation
import Bip300301Enforcer.SyncBlocks

/-! A snapshot of the consensus state at the tip, for comparing two validators, and what
it leaves out. -/
namespace Bip300301Enforcer
open Lib BlockHandler

inductive ParseSidechainDeclarationError
  | invalidUtf8Title
  | invalidUtf8Description
  | failedToDeserialize
  | unknownVersion (version : UInt8)
deriving DecidableEq

/-- What the description of a proposal says about its sidechain. -/
structure SidechainDeclaration where
  title : String
  description : String
  hashId1 : List UInt8
  hashId2 : List UInt8
deriving DecidableEq

namespace SidechainDeclaration

def hashId1Length : ℕ := 32

def hashId2Length : ℕ := 20

def fromUtf8 (bytes : List UInt8) : Option String := String.fromUTF8? ⟨bytes.toArray⟩

/-- A version byte, the length of the title, the title, the description and two hashes.
The description takes what the hashes leave. -/
def tryFrom : List UInt8 → Except ParseSidechainDeclarationError SidechainDeclaration
  | [] => .error .failedToDeserialize
  | version::input =>
    if version ≠ 0 then .error (.unknownVersion version)
    else match input with
      | [] => .error .failedToDeserialize
      | titleLength::input => do
        Fallible.ensure (titleLength.toNat ≤ input.length) .failedToDeserialize
        let title ← Fallible.require (fromUtf8 (input.take titleLength.toNat)) .invalidUtf8Title
        let input := input.drop titleLength.toNat
        Fallible.ensure (hashId1Length+hashId2Length ≤ input.length) .failedToDeserialize
        let descriptionLength := input.length-(hashId1Length+hashId2Length)
        let description ←
          Fallible.require (fromUtf8 (input.take descriptionLength)) .invalidUtf8Description
        let input := input.drop descriptionLength
        return ⟨title,description,input.take hashId1Length,input.drop hashId1Length⟩

end SidechainDeclaration

structure PendingWithdrawalSummary where
  m6id : M6id
  voteCount : UInt16
  proposalHeight : ℕ
deriving DecidableEq

structure SidechainStateSummary where
  sidechainNumber : SidechainNumber
  descriptionHash : DescriptionHash
  title : Option String
  description : Option String
  voteCount : UInt16
  proposalHeight : ℕ
  activationHeight : Option ℕ
  ctip : Option Ctip
  ctipSequenceNumber : Option ℕ
  pendingWithdrawals : List PendingWithdrawalSummary
deriving DecidableEq

structure SyncStateSummary where
  tipHash : BlockHash
  tipHeight : ℕ
  sidechains : List SidechainStateSummary
deriving DecidableEq

def hashLe (x y : BitVec 256) : Prop := hashBytes x ≤ hashBytes y

instance (x y : BitVec 256) : Decidable (hashLe x y) :=
  inferInstanceAs (Decidable (hashBytes x ≤ hashBytes y))

def PendingWithdrawalSummary.le (a b : PendingWithdrawalSummary) : Prop := hashLe a.m6id b.m6id

instance : DecidableRel PendingWithdrawalSummary.le := fun a b =>
  inferInstanceAs (Decidable (hashLe a.m6id b.m6id))

def SidechainStateSummary.le (a b : SidechainStateSummary) : Prop :=
  a.sidechainNumber < b.sidechainNumber ∨
    a.sidechainNumber = b.sidechainNumber ∧ hashLe a.descriptionHash b.descriptionHash

instance : DecidableRel SidechainStateSummary.le := fun _ _ => inferInstanceAs (Decidable (_ ∨ _))

namespace PendingM6ids

def summary (pending : PendingM6ids) : List PendingWithdrawalSummary :=
  (pending.entries.map (fun e => ⟨e.1,e.2.voteCount,e.2.proposalHeight⟩)).insertionSort
    PendingWithdrawalSummary.le

end PendingM6ids

namespace Dbs

variable [Bitcoin]

/-- The treasury and the bundles of an active sidechain. Others have none. -/
def treasurySummary (dbs : Dbs) (sidechain : Sidechain) :
    Res (Option Ctip × Option ℕ × List PendingWithdrawalSummary) :=
  let s := sidechain.proposal.sidechainNumber
  if sidechain.status.activationHeight.isSome then do
    let pending ← Database.get dbs.activeSidechains.pendingM6ids .pendingM6ids s
    return (dbs.tryGetCtip s,dbs.getCtipSequenceNumber s,PendingM6ids.summary pending)
  else .ok (none,none,[])

def sidechainSummary (dbs : Dbs) (sidechain : Sidechain) : Res SidechainStateSummary := do
  let (ctip,ctipSequenceNumber,pendingWithdrawals) ← dbs.treasurySummary sidechain
  let declaration := (SidechainDeclaration.tryFrom sidechain.proposal.description).toOption
  return ⟨sidechain.proposal.sidechainNumber,sha256d sidechain.proposal.description,
    declaration.map SidechainDeclaration.title,declaration.map SidechainDeclaration.description,
    sidechain.status.voteCount,sidechain.status.proposalHeight,sidechain.status.activationHeight,
    ctip,ctipSequenceNumber,pendingWithdrawals⟩

/-- Summarize a sidechain, unless one with the same slot and description was seen. -/
def summarizeSidechain (dbs : Dbs) (acc : List SidechainProposalId × List SidechainStateSummary)
    (sidechain : Sidechain) : Res (List SidechainProposalId × List SidechainStateSummary) :=
  let id : SidechainProposalId :=
    ⟨sidechain.proposal.sidechainNumber,sha256d sidechain.proposal.description⟩
  if id ∈ acc.1 then .ok acc
  else do
    let summary ← dbs.sidechainSummary sidechain
    return (id::acc.1,acc.2++[summary])

/-- The state at the tip, in an order of its own. Active sidechains come first, so that
they win over proposals. -/
def syncStateSummary (dbs : Dbs) : Res SyncStateSummary := do
  let tipHash ← Fallible.require dbs.currentChainTip .noChainTip
  let tipHeight ← Database.get dbs.blockHashes.height .height tipHash
  let active ← dbs.getActiveSidechains
  let proposals := dbs.proposalIdToSidechain.toList.map Prod.snd
  let (_,sidechains) ← (active++proposals).foldlM dbs.summarizeSidechain ([],[])
  return ⟨tipHash,tipHeight,sidechains.insertionSort SidechainStateSummary.le⟩

end Dbs

section Distinct

variable [Bitcoin] {dbs : Dbs} {seen : List SidechainProposalId} {l l' : List Sidechain}
  {sc : Sidechain}

def firsts (seen : List SidechainProposalId) : List Sidechain → List Sidechain
  | [] => []
  | sc::l =>
    if sc.proposal.computeId ∈ seen then firsts seen l
    else sc::firsts (sc.proposal.computeId::seen) l

theorem mem_of_mem_firsts (hsc : sc ∈ firsts seen l) : sc ∈ l ∧ sc.proposal.computeId ∉ seen := by
  induction l generalizing seen with
  | nil => cases hsc
  | cons a l ih =>
    rw [firsts] at hsc
    split at hsc
    · obtain ⟨hl,hs⟩ := ih hsc
      exact ⟨List.mem_cons_of_mem _ hl,hs⟩
    · rename_i ha
      rcases List.mem_cons.mp hsc with rfl | hsc
      · exact ⟨List.mem_cons_self,ha⟩
      · obtain ⟨hl,hs⟩ := ih hsc
        exact ⟨List.mem_cons_of_mem _ hl,fun h => hs (List.mem_cons_of_mem _ h)⟩

theorem mem_firsts (hsc : sc ∈ l) (hseen : sc.proposal.computeId ∉ seen)
    (hone : ∀ a ∈ l, a.proposal.computeId = sc.proposal.computeId → a = sc) : sc ∈ firsts seen l := by
  induction l generalizing seen with
  | nil => cases hsc
  | cons a l ih =>
    have hrest : ∀ b ∈ l, b.proposal.computeId = sc.proposal.computeId → b = sc :=
      fun b hb => hone b (List.mem_cons_of_mem _ hb)
    rw [firsts]
    by_cases ha : a.proposal.computeId = sc.proposal.computeId
    · obtain rfl := hone a List.mem_cons_self ha
      rw [if_neg hseen]
      exact List.mem_cons_self
    · have hl : sc ∈ l := by
        rcases List.mem_cons.mp hsc with rfl | hl
        · exact absurd rfl ha
        · exact hl
      split
      · exact ih hl hseen hrest
      · refine List.mem_cons_of_mem _ (ih hl ?_ hrest)
        intro hmem
        rcases List.mem_cons.mp hmem with he | hmem
        · exact ha he.symm
        · exact hseen hmem

theorem mem_firsts_append_left (hsc : sc ∈ firsts seen l) : sc ∈ firsts seen (l++l') := by
  induction l generalizing seen with
  | nil => cases hsc
  | cons a l ih =>
    rw [firsts] at hsc
    rw [List.cons_append,firsts]
    split at hsc
    · rename_i ha
      rw [if_pos ha]
      exact ih hsc
    · rename_i ha
      rw [if_neg ha]
      rcases List.mem_cons.mp hsc with rfl | hsc
      · exact List.mem_cons_self
      · exact List.mem_cons_of_mem _ (ih hsc)

/-- What is kept behind other sidechains has none of their ids. -/
theorem firsts_append_right (hsc : sc ∈ firsts seen (l++l')) :
    sc ∈ l ∨ sc ∈ l' ∧ ∀ a ∈ l, a.proposal.computeId ≠ sc.proposal.computeId := by
  induction l generalizing seen with
  | nil => exact .inr ⟨(mem_of_mem_firsts hsc).1,by simp⟩
  | cons a l ih =>
    rw [List.cons_append,firsts] at hsc
    split at hsc
    · rename_i ha
      rcases ih hsc with hl | ⟨hl',hne⟩
      · exact .inl (List.mem_cons_of_mem _ hl)
      · refine .inr ⟨hl',?_⟩
        intro b hb
        rcases List.mem_cons.mp hb with rfl | hb
        · intro he
          exact (mem_of_mem_firsts hsc).2 (he ▸ ha)
        · exact hne b hb
    · rcases List.mem_cons.mp hsc with rfl | hsc
      · exact .inl List.mem_cons_self
      · have hnot := (mem_of_mem_firsts hsc).2
        rcases ih hsc with hl | ⟨hl',hne⟩
        · exact .inl (List.mem_cons_of_mem _ hl)
        · refine .inr ⟨hl',?_⟩
          intro b hb
          rcases List.mem_cons.mp hb with rfl | hb
          · intro he
            exact hnot (he ▸ List.mem_cons_self)
          · exact hne b hb

theorem summarizeSidechain_eq (acc : List SidechainProposalId × List SidechainStateSummary)
    (sc : Sidechain) : dbs.summarizeSidechain acc sc =
      if sc.proposal.computeId ∈ acc.1 then .ok acc
      else dbs.sidechainSummary sc >>=
        fun summary => .ok (sc.proposal.computeId::acc.1,acc.2++[summary]) := rfl

theorem foldlM_summarizeSidechain {acc acc' : List SidechainProposalId × List SidechainStateSummary}
    (h : l.foldlM dbs.summarizeSidechain acc = .ok acc') (e : SidechainStateSummary) :
    e ∈ acc'.2 ↔ e ∈ acc.2 ∨ ∃ sc ∈ firsts acc.1 l, dbs.sidechainSummary sc = .ok e := by
  induction l generalizing acc with
  | nil =>
    obtain rfl : acc = acc' := by simpa using h
    simp [firsts]
  | cons sc l ih =>
    rw [List.foldlM_cons] at h
    obtain ⟨mid,hmid,h⟩ := Fallible.bind_ok.mp h
    rw [ih h,firsts]
    rw [summarizeSidechain_eq] at hmid
    by_cases hs : sc.proposal.computeId ∈ acc.1
    · rw [if_pos hs] at hmid
      obtain rfl : acc = mid := by simpa using hmid
      rw [if_pos hs]
    · rw [if_neg hs] at hmid
      obtain ⟨summary,hsum,hmid⟩ := Fallible.bind_ok.mp hmid
      obtain rfl := Except.ok.inj hmid
      rw [if_neg hs]
      simp only [List.mem_append,List.mem_cons,List.not_mem_nil,false_or,exists_eq_or_imp,hsum,
        Except.ok.injEq,or_assoc]
      rw [eq_comm (a := e)]

end Distinct

section Faithful

variable [Bitcoin] {h : BlockHandler} {dbs dbs' : Dbs} {sum : SyncStateSummary} {sc sc' : Sidechain}
  {s : SidechainNumber} {e : SidechainStateSummary}

/-- What the summary leaves out of the state that blocks are checked against. -/
structure SameUnsummarized (dbs dbs' : Dbs) : Prop where
  /-- Votes are positions in this order. -/
  bundleOrder : ∀ s, (dbs.activeSidechains.pendingM6ids.get? s).map OrderMap.keys =
    (dbs'.activeSidechains.pendingM6ids.get? s).map OrderMap.keys
  /-- The proposals that repeat an active sidechain. -/
  repeated : ∀ s sc, dbs.activeSidechains.sidechain.get? s = some sc →
    dbs.proposalIdToSidechain.get? sc.proposal.computeId =
      dbs'.proposalIdToSidechain.get? sc.proposal.computeId
  /-- The earlier treasury outputs. -/
  treasuries : dbs.activeSidechains.slotSequenceToTreasuryUtxo =
    dbs'.activeSidechains.slotSequenceToTreasuryUtxo
  /-- The votes of the tip, which a block can repeat. -/
  tipVotes : ∀ tip, dbs.currentChainTip = some tip →
    (dbs.blockHashes.diff.get? tip).map ackBundlesOf =
      (dbs'.blockHashes.diff.get? tip).map ackBundlesOf

omit [Bitcoin] in
theorem treasurySummary_active (ha : sc.status.activationHeight.isSome = true)
    {r : Option Ctip × Option ℕ × List PendingWithdrawalSummary}
    (hr : dbs.treasurySummary sc = .ok r) :
    ∃ pending, dbs.activeSidechains.pendingM6ids.get? sc.proposal.sidechainNumber = some pending ∧
      r = (dbs.tryGetCtip sc.proposal.sidechainNumber,
        dbs.getCtipSequenceNumber sc.proposal.sidechainNumber,PendingM6ids.summary pending) := by
  rw [Dbs.treasurySummary,if_pos ha] at hr
  obtain ⟨pending,hp,hr⟩ := Fallible.bind_ok.mp hr
  exact ⟨pending,(Database.get_ok _ _ _ _).mp hp,((Fallible.pure_ok _ _).mp hr).symm⟩

theorem eq_of_sidechainSummary (hcol : sha256d sc.proposal.description =
      sha256d sc'.proposal.description → sc.proposal.description = sc'.proposal.description)
    (he : dbs.sidechainSummary sc = .ok e) (he' : dbs'.sidechainSummary sc' = .ok e) :
    sc = sc' ∧ ∃ r, dbs.treasurySummary sc = .ok r ∧ dbs'.treasurySummary sc' = .ok r := by
  obtain ⟨⟨ctip,n,p⟩,hr,he⟩ := Fallible.bind_ok.mp he
  obtain ⟨⟨ctip',n',p'⟩,hr',he'⟩ := Fallible.bind_ok.mp he'
  obtain rfl := (Fallible.pure_ok _ _).mp he
  have heq := (Fallible.pure_ok _ _).mp he'
  simp only [SidechainStateSummary.mk.injEq] at heq
  obtain ⟨hnum,hhash,-,-,hv,hh,hact,rfl,rfl,rfl⟩ := heq
  refine ⟨?_,_,hr,hr'⟩
  obtain ⟨⟨num,desc⟩,v,hgt,act⟩ := sc
  obtain ⟨⟨num',desc'⟩,v',hgt',act'⟩ := sc'
  obtain rfl : num' = num := hnum
  obtain rfl : v' = v := hv
  obtain rfl : hgt' = hgt := hh
  obtain rfl : act' = act := hact
  obtain rfl : desc = desc' := hcol hhash.symm
  rfl

omit [Bitcoin] in
theorem PendingM6ids.eq_of_summary {p p' : PendingM6ids} (hs : summary p = summary p')
    (hk : p.keys = p'.keys) : p = p' := by
  let f : M6id × PendingM6idInfo → PendingWithdrawalSummary :=
    fun e => ⟨e.1,e.2.voteCount,e.2.proposalHeight⟩
  have hperm : (p.entries.map f).Perm (p'.entries.map f) := by
    have hp : (summary p).Perm (p.entries.map f) := List.perm_insertionSort _ _
    have hp' : (summary p').Perm (p'.entries.map f) := List.perm_insertionSort _ _
    rw [hs] at hp
    exact hp.symm.trans hp'
  have hinj : Function.Injective f := by
    rintro ⟨m,v,n⟩ ⟨m',v',n'⟩ he
    simp only [f,PendingWithdrawalSummary.mk.injEq] at he
    obtain ⟨rfl,rfl,rfl⟩ := he
    rfl
  refine OrderMap.ext_of_keys hk ?_
  intro k v hmem
  have hf := hperm.subset (List.mem_map_of_mem hmem)
  exact (List.mem_map_of_injective hinj).mp hf

theorem syncStateSummary_ok (hs : dbs.syncStateSummary = .ok sum) :
    ∃ active, ∃ acc : List SidechainProposalId × List SidechainStateSummary,
      active = dbs.activeSidechains.sidechain.toList.map Prod.snd ∧
      (active++dbs.proposalIdToSidechain.toList.map Prod.snd).foldlM dbs.summarizeSidechain ([],[]) =
        .ok acc ∧ dbs.currentChainTip = some sum.tipHash ∧
      dbs.blockHashes.height.get? sum.tipHash = some sum.tipHeight ∧
      sum.sidechains = acc.2.insertionSort SidechainStateSummary.le := by
  obtain ⟨tip,htip,hs⟩ := Fallible.bind_ok.mp hs
  obtain ⟨height,hheight,hs⟩ := Fallible.bind_ok.mp hs
  obtain ⟨active,hactive,hs⟩ := Fallible.bind_ok.mp hs
  obtain ⟨acc,hacc,hs⟩ := Fallible.bind_ok.mp hs
  obtain rfl := (Fallible.pure_ok _ _).mp hs
  exact ⟨active,acc,Dbs.getActiveSidechains_eq hactive,hacc,by simpa using htip,by simpa using hheight,rfl⟩

/-- Every entry of a summary stands for an active sidechain, or for a proposal that does
not repeat one. -/
theorem mem_summary (hr : dbs.toConsensusDbs.Represents) (hs : dbs.syncStateSummary = .ok sum) :
    e ∈ sum.sidechains ↔
      (∃ s sc, dbs.activeSidechains.sidechain.get? s = some sc ∧ dbs.sidechainSummary sc = .ok e) ∨
      ∃ id sc, dbs.proposalIdToSidechain.get? id = some sc ∧ dbs.sidechainSummary sc = .ok e ∧
        ∀ s a, dbs.activeSidechains.sidechain.get? s = some a → a.proposal.computeId ≠ id := by
  obtain ⟨active,acc,hactive,hfold,-,-,hl⟩ := syncStateSummary_ok hs
  have hmem := foldlM_summarizeSidechain hfold e
  simp only [List.not_mem_nil,false_or] at hmem
  rw [hl,List.mem_insertionSort,hmem]
  have hproposals : ∀ a, a ∈ dbs.proposalIdToSidechain.toList.map Prod.snd ↔
      dbs.proposalIdToSidechain.get? a.proposal.computeId = some a := by
    intro a
    rw [FinMap.mem_values]
    constructor
    · rintro ⟨id,hid⟩
      rw [(hr.proposals id a hid).1]
      exact hid
    · intro ha
      exact ⟨_,ha⟩
  constructor
  · rintro ⟨sc,hsc,he⟩
    rcases firsts_append_right hsc with hl | ⟨hl,hne⟩
    · rw [hactive,FinMap.mem_values] at hl
      obtain ⟨s,hsc⟩ := hl
      exact .inl ⟨s,sc,hsc,he⟩
    · refine .inr ⟨_,sc,(hproposals sc).mp hl,he,?_⟩
      intro s a ha
      exact hne a (hactive ▸ FinMap.mem_values.mpr ⟨s,ha⟩)
  · rintro (⟨s,sc,hsc,he⟩ | ⟨id,sc,hsc,he,hne⟩)
    · refine ⟨sc,mem_firsts_append_left (mem_firsts (hactive ▸ FinMap.mem_values.mpr ⟨s,hsc⟩) (by simp) ?_),he⟩
      intro a ha hid
      rw [hactive,FinMap.mem_values] at ha
      obtain ⟨s',ha⟩ := ha
      have hnum : a.proposal.sidechainNumber = sc.proposal.sidechainNumber :=
        congrArg SidechainProposalId.sidechainNumber hid
      rw [(hr.sidechains s' a ha).1,(hr.sidechains s sc hsc).1] at hnum
      subst hnum
      exact Option.some.inj (ha.symm.trans hsc)
    · have hid := (hr.proposals id sc hsc).1
      subst hid
      refine ⟨sc,mem_firsts (List.mem_append_right _ ((hproposals sc).mpr hsc)) (by simp) ?_,he⟩
      intro a ha hid
      rcases List.mem_append.mp ha with ha | ha
      · rw [hactive,FinMap.mem_values] at ha
        obtain ⟨s,ha⟩ := ha
        exact absurd hid (hne s a ha)
      · rw [hproposals,hid] at ha
        exact Option.some.inj (ha.symm.trans hsc)

def Dbs.Stores (dbs : Dbs) (sc : Sidechain) : Prop :=
  (∃ s, dbs.activeSidechains.sidechain.get? s = some sc) ∨
    ∃ id, dbs.proposalIdToSidechain.get? id = some sc

/-- The hash tells the stored descriptions apart. -/
def NoCollision (dbs dbs' : Dbs) : Prop :=
  ∀ sc sc', dbs.Stores sc → dbs'.Stores sc' →
    sha256d sc.proposal.description = sha256d sc'.proposal.description →
      sc.proposal.description = sc'.proposal.description

theorem NoCollision.symm (hcol : NoCollision dbs dbs') : NoCollision dbs' dbs :=
  fun sc sc' hsc hsc' he => (hcol sc' sc hsc' hsc he.symm).symm

theorem ConsensusDbs.Represents.wf {t : ConsensusDbs} (hr : t.Represents) : t.Wf := by
  refine ⟨⟨hr.pending,fun s => ⟨hr.entries s,hr.slot s,hr.first s,hr.next s,?_,?_⟩,hr.ctipActive⟩,
    hr.sidechains,hr.proposals⟩
  · intro hzero
    rw [← FinMap.contains_false_iff,← hr.counted s,Bool.eq_false_iff,Ne,
      ← ActiveSidechainDbs.count_pos_iff,hzero]
    exact Nat.lt_irrefl 0
  · intro n u hn hu
    exact (hr.ctip s _).mpr ⟨n,u,hn,hu,rfl⟩

theorem sidechainSummary_active (hw : dbs.toConsensusDbs.Wf)
    (hsc : dbs.activeSidechains.sidechain.get? s = some sc) : ∃ e, dbs.sidechainSummary sc = .ok e := by
  obtain ⟨hnum,hact⟩ := hw.sidechains s sc hsc
  have hp : dbs.activeSidechains.pendingM6ids.contains s = true := by
    rw [hw.tables.pending s]
    exact (FinMap.contains_iff _ _).mpr ⟨sc,hsc⟩
  obtain ⟨p,hp⟩ := (FinMap.contains_iff _ _).mp hp
  have htreasury : dbs.treasurySummary sc =
      .ok (dbs.tryGetCtip s,dbs.getCtipSequenceNumber s,PendingM6ids.summary p) := by
    rw [Dbs.treasurySummary,if_pos hact,hnum,(Database.get_ok _ _ _ _).mpr hp]
    rfl
  exact ⟨_,Fallible.bind_ok.mpr ⟨_,htreasury,rfl⟩⟩

theorem sidechainSummary_proposal (dbs : Dbs) (hsc : sc.status.activationHeight = none) :
    ∃ e, dbs.sidechainSummary sc = .ok e := by
  have htreasury : dbs.treasurySummary sc = .ok (none,none,[]) := by
    rw [Dbs.treasurySummary,hsc]
    rfl
  exact ⟨_,Fallible.bind_ok.mpr ⟨_,htreasury,rfl⟩⟩

theorem ConsensusDbs.Represents.inactive {t : ConsensusDbs} (hr : t.Represents)
    (hs : t.activeSidechains.sidechain.get? s = none) :
    t.activeSidechains.pendingM6ids.get? s = none ∧ t.activeSidechains.ctip.get? s = none ∧
      t.activeSidechains.treasuryUtxoCount.get? s = none := by
  have hno := (FinMap.contains_false_iff _ _).mpr hs
  have hctip : t.activeSidechains.ctip.contains s = false := by
    by_contra hc
    rw [hr.ctipActive s (by simpa using hc)] at hno
    cases hno
  exact ⟨(FinMap.contains_false_iff _ _).mp ((hr.pending s).trans hno),
    (FinMap.contains_false_iff _ _).mp hctip,(FinMap.contains_false_iff _ _).mp ((hr.counted s).trans hctip)⟩

theorem active_of_summary (hr : dbs.toConsensusDbs.Represents) (hr' : dbs'.toConsensusDbs.Represents)
    (hcol : NoCollision dbs dbs') (hs : dbs.syncStateSummary = .ok sum)
    (hs' : dbs'.syncStateSummary = .ok sum)
    (hsc : dbs.activeSidechains.sidechain.get? s = some sc) :
    dbs'.activeSidechains.sidechain.get? s = some sc ∧
      ∃ r, dbs.treasurySummary sc = .ok r ∧ dbs'.treasurySummary sc = .ok r := by
  obtain ⟨e,he⟩ := sidechainSummary_active hr.wf hsc
  obtain ⟨hnum,hact⟩ := hr.sidechains s sc hsc
  have hmem := (mem_summary hr hs).mpr (.inl ⟨s,sc,hsc,he⟩)
  rcases (mem_summary hr' hs').mp hmem with ⟨s',sc',hsc',he'⟩ | ⟨id,sc',hsc',he',-⟩
  · obtain ⟨rfl,htreasury⟩ :=
      eq_of_sidechainSummary (hcol sc sc' (.inl ⟨s,hsc⟩) (.inl ⟨s',hsc'⟩)) he he'
    rw [(hr'.sidechains s' sc hsc').1] at hnum
    exact ⟨hnum ▸ hsc',htreasury⟩
  · obtain ⟨rfl,-⟩ :=
      eq_of_sidechainSummary (hcol sc sc' (.inl ⟨s,hsc⟩) (.inr ⟨id,hsc'⟩)) he he'
    rw [(hr'.proposals id sc hsc').2] at hact
    cases hact

theorem proposal_of_summary (hr : dbs.toConsensusDbs.Represents)
    (hr' : dbs'.toConsensusDbs.Represents) (hcol : NoCollision dbs dbs')
    (hs : dbs.syncStateSummary = .ok sum) (hs' : dbs'.syncStateSummary = .ok sum)
    (hrep : ∀ s a, dbs.activeSidechains.sidechain.get? s = some a →
      dbs.proposalIdToSidechain.get? a.proposal.computeId =
        dbs'.proposalIdToSidechain.get? a.proposal.computeId)
    {id : SidechainProposalId} (hsc : dbs.proposalIdToSidechain.get? id = some sc) :
    dbs'.proposalIdToSidechain.get? id = some sc := by
  obtain ⟨hid,hnone⟩ := hr.proposals id sc hsc
  by_cases hne : ∀ s a, dbs.activeSidechains.sidechain.get? s = some a → a.proposal.computeId ≠ id
  · obtain ⟨e,he⟩ := sidechainSummary_proposal dbs hnone
    have hmem := (mem_summary hr hs).mpr (.inr ⟨id,sc,hsc,he,hne⟩)
    rcases (mem_summary hr' hs').mp hmem with ⟨s',sc',hsc',he'⟩ | ⟨id',sc',hsc',he',-⟩
    · obtain ⟨rfl,-⟩ :=
        eq_of_sidechainSummary (hcol sc sc' (.inr ⟨id,hsc⟩) (.inl ⟨s',hsc'⟩)) he he'
      have hact := (hr'.sidechains s' sc hsc').2
      rw [hnone] at hact
      cases hact
    · obtain ⟨rfl,-⟩ :=
        eq_of_sidechainSummary (hcol sc sc' (.inr ⟨id,hsc⟩) (.inr ⟨id',hsc'⟩)) he he'
      rw [(hr'.proposals id' sc hsc').1] at hid
      exact hid ▸ hsc'
  · push Not at hne
    obtain ⟨s,a,ha,rfl⟩ := hne
    rw [← hrep s a ha]
    exact hsc

/-- With what it leaves out, the summary determines the consensus tables. -/
theorem consensus_of_summary (hr : dbs.toConsensusDbs.Represents)
    (hr' : dbs'.toConsensusDbs.Represents) (hcol : NoCollision dbs dbs')
    (hsame : SameUnsummarized dbs dbs') (hs : dbs.syncStateSummary = .ok sum)
    (hs' : dbs'.syncStateSummary = .ok sum) : dbs.toConsensusDbs = dbs'.toConsensusDbs := by
  have hsidechain : dbs.activeSidechains.sidechain = dbs'.activeSidechains.sidechain := by
    refine FinMap.ext (fun s => Option.ext (fun sc => ⟨fun hsc => ?_,fun hsc => ?_⟩))
    · exact (active_of_summary hr hr' hcol hs hs' hsc).1
    · exact (active_of_summary hr' hr hcol.symm hs' hs hsc).1
  have hproposals : dbs.proposalIdToSidechain = dbs'.proposalIdToSidechain := by
    refine FinMap.ext (fun id => Option.ext (fun sc => ⟨fun hsc => ?_,fun hsc => ?_⟩))
    · exact proposal_of_summary hr hr' hcol hs hs' hsame.repeated hsc
    · refine proposal_of_summary hr' hr hcol.symm hs' hs ?_ hsc
      intro s a ha
      exact (hsame.repeated s a (hsidechain ▸ ha)).symm
  have hslots : ∀ s, dbs.activeSidechains.pendingM6ids.get? s = dbs'.activeSidechains.pendingM6ids.get? s ∧
      dbs.activeSidechains.ctip.get? s = dbs'.activeSidechains.ctip.get? s ∧
      dbs.activeSidechains.treasuryUtxoCount.get? s = dbs'.activeSidechains.treasuryUtxoCount.get? s := by
    intro s
    cases hsc : dbs.activeSidechains.sidechain.get? s with
    | none => exact ⟨(hr.inactive hsc).1.trans (hr'.inactive (hsidechain ▸ hsc)).1.symm,
        (hr.inactive hsc).2.1.trans (hr'.inactive (hsidechain ▸ hsc)).2.1.symm,
        (hr.inactive hsc).2.2.trans (hr'.inactive (hsidechain ▸ hsc)).2.2.symm⟩
    | some sc =>
      obtain ⟨hsc',r,htr,htr'⟩ := active_of_summary hr hr' hcol hs hs' hsc
      obtain ⟨hnum,hact⟩ := hr.sidechains s sc hsc
      obtain ⟨p,hp,rfl⟩ := treasurySummary_active hact htr
      obtain ⟨p',hp',he⟩ := treasurySummary_active hact htr'
      rw [hnum] at hp hp' he
      simp only [Prod.mk.injEq] at he
      refine ⟨?_,he.1,Option.map_injective PNat.natPred_injective he.2.1⟩
      have hk := hsame.bundleOrder s
      rw [hp,hp'] at hk
      rw [hp,hp',PendingM6ids.eq_of_summary he.2.2 (Option.some.inj hk)]
  have hindex : dbs.activeSidechains.ctipOutpointToValueSeq =
      dbs'.activeSidechains.ctipOutpointToValueSeq := by
    refine FinMap.ext (fun o => Option.ext (fun ⟨s,v,n⟩ => ?_))
    rw [hr.index o s v n,hr'.index o s v n,hsame.treasuries]
  have hactive : dbs.activeSidechains = dbs'.activeSidechains := by
    have hpending := FinMap.ext (fun s => (hslots s).1)
    have hctip := FinMap.ext (fun s => (hslots s).2.1)
    have hcount := FinMap.ext (fun s => (hslots s).2.2)
    have htreasuries := hsame.treasuries
    cases hd : dbs.activeSidechains
    cases hd' : dbs'.activeSidechains
    simp only [hd,hd'] at hsidechain hindex hpending hctip hcount htreasuries
    simp only [hsidechain,hindex,hpending,hctip,hcount,htreasuries]
  cases hd : dbs.toConsensusDbs
  cases hd' : dbs'.toConsensusDbs
  simp only [hd,hd'] at hactive hproposals
  rw [hactive,hproposals]

/-- Two states that have the same tip and agree on all that a block on top of it is
checked against. -/
structure Alike (tip : BlockHash) (dbs dbs' : Dbs) : Prop where
  wf : dbs.toConsensusDbs.Wf
  consensus : dbs.toConsensusDbs = dbs'.toConsensusDbs
  atTip : dbs.currentChainTip = some tip ∧ dbs'.currentChainTip = some tip
  height : ∃ n, dbs.blockHashes.height.get? tip = some n ∧ dbs'.blockHashes.height.get? tip = some n
  votes : (dbs.blockHashes.diff.get? tip).map ackBundlesOf =
    (dbs'.blockHashes.diff.get? tip).map ackBundlesOf

theorem alike_of_summary (hr : dbs.toConsensusDbs.Represents) (hr' : dbs'.toConsensusDbs.Represents)
    (hcol : NoCollision dbs dbs') (hsame : SameUnsummarized dbs dbs')
    (hs : dbs.syncStateSummary = .ok sum) (hs' : dbs'.syncStateSummary = .ok sum) :
    Alike sum.tipHash dbs dbs' := by
  obtain ⟨-,-,-,-,htip,hheight,-⟩ := syncStateSummary_ok hs
  obtain ⟨-,-,-,-,htip',hheight',-⟩ := syncStateSummary_ok hs'
  exact ⟨hr.wf,consensus_of_summary hr hr' hcol hsame hs hs',⟨htip,htip'⟩,⟨_,hheight,hheight'⟩,
    hsame.tipVotes _ htip⟩

omit [Bitcoin] in
theorem handleM4RepeatPrevious_congr {t : ConsensusDbs} {parent : BlockHash}
    {d d' : Option Diff.Block} (hd : d.map ackBundlesOf = d'.map ackBundlesOf) :
    handleM4RepeatPrevious t parent d = handleM4RepeatPrevious t parent d' := by
  unfold handleM4RepeatPrevious
  cases d with
  | none =>
    obtain rfl : d' = none := by simpa using hd.symm
    rfl
  | some d =>
    cases d' with
    | none => cases hd
    | some d' =>
      have hd : ackBundlesOf d = ackBundlesOf d' := Option.some.inj hd
      simp only [Fallible.require_some,Fallible.ok_bind,hd]

omit [Bitcoin] in
theorem handleM4AckBundles_congr {t : ConsensusDbs} {parent : BlockHash} {d d' : Option Diff.Block}
    (hd : d.map ackBundlesOf = d'.map ackBundlesOf) (m4 : M4AckBundles) :
    handleM4AckBundles t parent d m4 = handleM4AckBundles t parent d' m4 := by
  cases m4 with
  | repeatPrevious => exact handleM4RepeatPrevious_congr hd
  | _ => rfl

theorem processBlock_congr {t : ConsensusDbs} {height : ℕ} {parent blockHash : BlockHash}
    {coinbase : Transaction} {txs : List Transaction} {d d' : Option Diff.Block}
    (hd : d.map ackBundlesOf = d'.map ackBundlesOf) :
    h.processBlock t height parent blockHash d coinbase txs =
      h.processBlock t height parent blockHash d' coinbase txs := by
  have hmessage : h.connectMessage height parent d = h.connectMessage height parent d' := by
    funext proposals acc msg
    unfold connectMessage
    cases msg.1 with
    | m4AckBundles m4 => simp only [handleCoinbaseMessage,handleM4AckBundles_congr hd]
    | _ => rfl
  have hmissing : connectMissingM4 height parent d = connectMissingM4 height parent d' := by
    funext m4Exists acc
    unfold connectMissingM4
    simp only [handleM4AckBundles_congr hd]
  unfold processBlock connectCoinbase
  simp only [hmessage,hmissing]

theorem syncStateSummary_succeeds {tip : BlockHash} {n : ℕ} (hw : dbs.toConsensusDbs.Wf)
    (htip : dbs.currentChainTip = some tip) (hn : dbs.blockHashes.height.get? tip = some n) :
    ∃ sum, dbs.syncStateSummary = .ok sum := by
  obtain ⟨active,hactive⟩ : ∃ l, dbs.getActiveSidechains = .ok l := by
    refine Fallible.mapM_succeeds ?_
    rintro ⟨s,sc⟩ hmem
    have hact := (hw.sidechains s sc (FinMap.mem_toList.mp hmem)).2
    exact ⟨sc,by simp only [hact]; rfl⟩
  have hsummary : ∀ sc ∈ active++dbs.proposalIdToSidechain.toList.map Prod.snd,
      ∃ e, dbs.sidechainSummary sc = .ok e := by
    intro sc hsc
    rcases List.mem_append.mp hsc with hsc | hsc
    · rw [Dbs.getActiveSidechains_eq hactive,FinMap.mem_values] at hsc
      obtain ⟨s,hsc⟩ := hsc
      exact sidechainSummary_active hw hsc
    · obtain ⟨id,hsc⟩ := FinMap.mem_values.mp hsc
      exact sidechainSummary_proposal dbs (hw.proposals id sc hsc).2
  obtain ⟨acc,hacc,-⟩ : ∃ acc, (active++dbs.proposalIdToSidechain.toList.map Prod.snd).foldlM
      dbs.summarizeSidechain ([],[]) = .ok acc ∧ True := by
    refine Fallible.foldlM_succeeds (fun _ _ => True) trivial ?_
    intro done sc rest acc hsplit _
    obtain ⟨e,he⟩ := hsummary sc (by rw [hsplit]; simp)
    rw [summarizeSidechain_eq]
    split
    · exact ⟨_,rfl,trivial⟩
    · exact ⟨_,by rw [he]; rfl,trivial⟩
  refine ⟨⟨tip,n,acc.2.insertionSort SidechainStateSummary.le⟩,
    Fallible.bind_ok.mpr ⟨tip,by rw [htip]; rfl,?_⟩⟩
  refine Fallible.bind_ok.mpr ⟨n,(Database.get_ok _ _ _ _).mpr hn,?_⟩
  exact Fallible.bind_ok.mpr ⟨active,hactive,Fallible.bind_ok.mpr ⟨acc,hacc,rfl⟩⟩

theorem Alike.summary {tip : BlockHash} (ha : Alike tip dbs dbs') :
    ∃ sum, dbs.syncStateSummary = .ok sum ∧ dbs'.syncStateSummary = .ok sum := by
  obtain ⟨hw,hcons,⟨htip,htip'⟩,⟨n,hn,hn'⟩,-⟩ := ha
  obtain ⟨sum,hs⟩ := syncStateSummary_succeeds hw htip hn
  refine ⟨sum,hs,?_⟩
  rw [← hs]
  obtain ⟨t,bh,k,u⟩ := dbs
  obtain ⟨t',bh',k',u'⟩ := dbs'
  obtain rfl : t = t' := hcons
  obtain rfl : k = some tip := htip
  obtain rfl : k' = some tip := htip'
  simp only [Dbs.syncStateSummary,Fallible.require_some,Fallible.ok_bind,
    (Database.get_ok _ _ _ _).mpr hn,(Database.get_ok _ _ _ _).mpr hn']
  rfl

theorem Dbs.Tipped.recorded {b : Block} {n : ℕ} {t : ConsensusDbs} {info : BlockInfo} {d : Diff.Block}
    {event : Event} {next : Dbs} (ht : dbs.Tipped)
    (hchild : dbs.blockHashes.parent? b.blockHash = some (dbs.currentChainTip.getD allZeros))
    (hr : recordBlock { dbs with toConsensusDbs := t } (headerInfoOf b n) info d = .ok (event,next)) :
    next.toConsensusDbs = t ∧ next.currentChainTip = some b.blockHash ∧
      next.blockHashes.header = dbs.blockHashes.header ∧
      next.blockHashes.height = dbs.blockHashes.height ∧
      next.blockHashes.diff.get? b.blockHash = some d ∧ next.Tipped := by
  obtain ⟨htip,hheader,hheight,hwork⟩ := @recordBlock_tip _ { dbs with toConsensusDbs := t } next event
    (headerInfoOf b n) info d ht.headers ht.tip hchild hr
  obtain ⟨hd,w,-,-,-,tip,rfl,-⟩ := recordBlock_ok hr
  refine ⟨rfl,htip,hheader,hheight,FinMap.get?_insert_self _ _ _,ht.headers.congr hheader hheight,?_,?_⟩
  · rw [htip]
    exact fun hz => Bitcoin.blockHash_ne _ (Option.some.inj hz)
  · intro k hk
    obtain rfl := Option.some.inj (htip.symm.trans hk)
    exact hwork

/-- A block that one state accepts is accepted by the other, and they stay alike. -/
theorem Alike.connectBlock {tip : BlockHash} {b : Block} {event : Event} {next : Dbs}
    (ha : Alike tip dbs dbs') (ht : dbs.Tipped) (ht' : dbs'.Tipped)
    (hb : dbs.blockHashes.header.get? b.blockHash = some b.header)
    (hb' : dbs'.blockHashes.header.get? b.blockHash = some b.header)
    (hc : h.connectBlock dbs b = .ok (event,next)) :
    ∃ event' next', h.connectBlock dbs' b = .ok (event',next') ∧ Alike b.blockHash next next' ∧
      next.Tipped ∧ next'.Tipped ∧ next.blockHashes.header = dbs.blockHashes.header ∧
      next'.blockHashes.header = dbs'.blockHashes.header := by
  obtain ⟨n,coinbase,txs,res,hp,hu,hrec⟩ := connectBlock_ok.mp hc
  obtain ⟨hw,hcons,⟨htip,htip'⟩,⟨m,hm,hm'⟩,hvotes⟩ := ha
  have hparent : b.header.prevBlockhash = tip := by
    rw [hp.parent,htip]
    rfl
  have hzero : b.header.prevBlockhash ≠ allZeros := by
    intro hz
    exact ht.tip (by rw [htip,← hparent,hz])
  have hn : n = m+1 := by
    obtain ⟨n₀,hn₀,-,hpred⟩ := ht.headers.height _ _ hb
    obtain rfl := Option.some.inj (hp.height.symm.trans hn₀)
    obtain ⟨hpos,hprev⟩ := hpred hzero
    rw [hparent,hm] at hprev
    have := Option.some.inj hprev
    omega
  have hn' : dbs'.blockHashes.height.get? b.blockHash = some n := by
    obtain ⟨n₀,hn₀,-,hpred⟩ := ht'.headers.height _ _ hb'
    obtain ⟨hpos,hprev⟩ := hpred hzero
    rw [hparent,hm'] at hprev
    have := Option.some.inj hprev
    rw [hn₀]
    congr
    omega
  have hp' : PartiallyAccepted h dbs' b n coinbase txs res := by
    refine ⟨by rw [hp.parent,htip,htip'],hn',hp.txdata,?_⟩
    rw [← hcons,← hp.processed]
    refine processBlock_congr ?_
    rw [hparent]
    exact hvotes.symm
  have hchild : dbs.blockHashes.parent? b.blockHash = some (dbs.currentChainTip.getD allZeros) := by
    rw [← hp.parent]
    exact Option.map_eq_some_iff.mpr ⟨_,hb,rfl⟩
  have hchild' : dbs'.blockHashes.parent? b.blockHash = some (dbs'.currentChainTip.getD allZeros) := by
    rw [← hp'.parent]
    exact Option.map_eq_some_iff.mpr ⟨_,hb',rfl⟩
  obtain ⟨⟨event',next'⟩,hrec'⟩ := @Dbs.Tipped.recordBlock_succeeds _
    { dbs' with toConsensusDbs := res.dbs } (headerInfoOf b n) res.blockInfo res.diff
    ⟨ht'.headers,ht'.tip,ht'.work⟩ hchild'
  obtain ⟨hdbs,hnext,hheader,hheight,hdiff,htipped⟩ := ht.recorded hchild hrec
  obtain ⟨hdbs',hnext',hheader',hheight',hdiff',htipped'⟩ := ht'.recorded hchild' hrec'
  have hwf : res.dbs.Wf :=
    (processBlock_spec (P := False) (T := fun _ => True) hp.processed hw False.elim).1
  refine ⟨event',next',connectBlock_ok.mpr ⟨n,coinbase,txs,res,hp',hu,hrec'⟩,?_,htipped,htipped',
    hheader,hheader'⟩
  exact ⟨hdbs ▸ hwf,hdbs.trans hdbs'.symm,⟨hnext,hnext'⟩,
    ⟨n,by rw [hheight,hp.height],by rw [hheight',hn']⟩,by rw [hdiff,hdiff']⟩

theorem Alike.symm {tip : BlockHash} (ha : Alike tip dbs dbs') : Alike tip dbs' dbs := by
  obtain ⟨n,hn,hn'⟩ := ha.height
  exact ⟨ha.consensus ▸ ha.wf,ha.consensus.symm,⟨ha.atTip.2,ha.atTip.1⟩,⟨n,hn',hn⟩,ha.votes.symm⟩

def connectBlocks (h : BlockHandler) (dbs : Dbs) (bs : List Block) : Res Dbs :=
  bs.foldlM (fun dbs b => do
    let (_,dbs) ← h.connectBlock dbs b
    return dbs) dbs

theorem Alike.connectBlocks {tip : BlockHash} {bs : List Block} {next : Dbs}
    (ha : Alike tip dbs dbs') (ht : dbs.Tipped) (ht' : dbs'.Tipped)
    (hb : ∀ b ∈ bs, dbs.blockHashes.header.get? b.blockHash = some b.header ∧
      dbs'.blockHashes.header.get? b.blockHash = some b.header)
    (hc : connectBlocks h dbs bs = .ok next) :
    ∃ next' tip', connectBlocks h dbs' bs = .ok next' ∧ Alike tip' next next' := by
  induction bs generalizing dbs dbs' tip with
  | nil =>
    obtain rfl := (Fallible.pure_ok _ _).mp hc
    exact ⟨dbs',tip,rfl,ha⟩
  | cons b bs ih =>
    rw [Bip300301Enforcer.connectBlocks,List.foldlM_cons] at hc
    obtain ⟨mid,hmid,hc⟩ := Fallible.bind_ok.mp hc
    obtain ⟨⟨event,_⟩,hcon,hmid⟩ := Fallible.bind_ok.mp hmid
    obtain rfl := (Fallible.pure_ok _ _).mp hmid
    obtain ⟨hb₁,hb₂⟩ := hb b List.mem_cons_self
    obtain ⟨event',mid',hcon',ha,ht,ht',hh,hh'⟩ := ha.connectBlock ht ht' hb₁ hb₂ hcon
    obtain ⟨next',tip',hnext,halike⟩ := ih ha ht ht' (fun b hmem => by
      rw [hh,hh']
      exact hb b (List.mem_cons_of_mem _ hmem)) hc
    refine ⟨next',tip',?_,halike⟩
    rw [Bip300301Enforcer.connectBlocks,List.foldlM_cons,hcon']
    exact hnext

/-- Two states with equal summaries that also agree on what the summary leaves out accept
the same blocks, one after the other, and have equal summaries after them. -/
theorem syncStateSummary_faithful (hr : dbs.toConsensusDbs.Represents)
    (hr' : dbs'.toConsensusDbs.Represents) (ht : dbs.Tipped) (ht' : dbs'.Tipped)
    (hcol : NoCollision dbs dbs') (hs : dbs.syncStateSummary = .ok sum)
    (hs' : dbs'.syncStateSummary = .ok sum) (hsame : SameUnsummarized dbs dbs') (bs : List Block)
    (hb : ∀ b ∈ bs, dbs.blockHashes.header.get? b.blockHash = some b.header ∧
      dbs'.blockHashes.header.get? b.blockHash = some b.header) :
    ((∃ next, connectBlocks h dbs bs = .ok next) ↔ ∃ next', connectBlocks h dbs' bs = .ok next') ∧
      ∀ next next', connectBlocks h dbs bs = .ok next → connectBlocks h dbs' bs = .ok next' →
        ∃ sum', next.syncStateSummary = .ok sum' ∧ next'.syncStateSummary = .ok sum' := by
  have ha := alike_of_summary hr hr' hcol hsame hs hs'
  refine ⟨⟨?_,?_⟩,?_⟩
  · rintro ⟨next,hc⟩
    obtain ⟨next',-,hc',-⟩ := ha.connectBlocks ht ht' hb hc
    exact ⟨next',hc'⟩
  · rintro ⟨next',hc'⟩
    obtain ⟨next,-,hc,-⟩ := ha.symm.connectBlocks ht' ht (fun b hmem => (hb b hmem).symm) hc'
    exact ⟨next,hc⟩
  · intro next next' hc hc'
    obtain ⟨_,tip,hc'',ha'⟩ := ha.connectBlocks ht ht' hb hc
    obtain rfl := Except.ok.inj (hc''.symm.trans hc')
    exact ha'.summary

def Dbs.withPending (dbs : Dbs) (s : SidechainNumber) (p : PendingM6ids) : Dbs :=
  { dbs with activeSidechains := { dbs.activeSidechains with
      pendingM6ids := dbs.activeSidechains.pendingM6ids.insert s p } }

/-- The state with other treasury outputs in the mempool. -/
def Dbs.withSeen (dbs : Dbs) (u : Database OutPoint (SidechainNumber × ℕ)) : Dbs :=
  { dbs with seenUnconsolidatedCtipOutputs := u }

theorem Dbs.Tipped.withPending (ht : dbs.Tipped) (s : SidechainNumber) (p : PendingM6ids) :
    (dbs.withPending s p).Tipped := ⟨ht.headers,ht.tip,ht.work⟩

theorem Dbs.Tipped.withSeen (ht : dbs.Tipped) (u : Database OutPoint (SidechainNumber × ℕ)) :
    (dbs.withSeen u).Tipped := ⟨ht.headers,ht.tip,ht.work⟩

omit [Bitcoin] in
theorem Dbs.stores_withPending (p : PendingM6ids) : (dbs.withPending s p).Stores sc ↔ dbs.Stores sc :=
  .rfl

omit [Bitcoin] in
theorem Dbs.stores_withSeen (u : Database OutPoint (SidechainNumber × ℕ)) :
    (dbs.withSeen u).Stores sc ↔ dbs.Stores sc := .rfl

omit [Bitcoin] in
theorem Dbs.blockHashes_withPending (dbs : Dbs) (s : SidechainNumber) (p : PendingM6ids) :
    (dbs.withPending s p).blockHashes = dbs.blockHashes := rfl

theorem ConsensusDbs.Represents.withSeen (hr : dbs.toConsensusDbs.Represents)
    (u : Database OutPoint (SidechainNumber × ℕ)) : (dbs.withSeen u).toConsensusDbs.Represents := hr

theorem SameUnsummarized.withSeen (dbs : Dbs) (u : Database OutPoint (SidechainNumber × ℕ)) :
    SameUnsummarized dbs (dbs.withSeen u) :=
  ⟨fun _ => rfl,fun _ _ _ => rfl,rfl,fun _ _ => rfl⟩

theorem Dbs.syncStateSummary_withSeen (dbs : Dbs) (u : Database OutPoint (SidechainNumber × ℕ)) :
    (dbs.withSeen u).syncStateSummary = dbs.syncStateSummary := rfl

theorem ConsensusDbs.Represents.withPending (hr : dbs.toConsensusDbs.Represents)
    (hs : dbs.activeSidechains.sidechain.contains s = true) (p : PendingM6ids) :
    (dbs.withPending s p).toConsensusDbs.Represents := by
  refine ⟨?_,hr.counted,hr.ctipActive,hr.entries,hr.slot,hr.first,hr.next,hr.ctip,hr.index,
    hr.sidechains,hr.proposals⟩
  intro s'
  simp only [Dbs.withPending,FinMap.contains_insert,hr.pending s']
  by_cases he : s = s'
  · subst he
    simp [hs]
  · simp [he]

end Faithful

section Sample

open Sample

namespace SummarySample

def handler : BlockHandler := .new (.new .bitcoin .regtest)

def description : List UInt8 := [1,2,3]

def blocks : List Block := blocksOn allZeros 0
  ([([],[]),([m1Script 0 description],[])]++
    List.replicate 6 ([m2Script 0 (sha256d description)],[])++
    [([m3Script 0 7],[]),([m3Script 0 8],[])])

def voting : Block :=
  blockOn ((blocks.getLast?.map Block.blockHash).getD allZeros) 10 [m4Script [0]] []

def run : Dbs × Chain :=
  Call.runAll handler UtxoValid (Call.connectAll blocks++[.header voting.header 10])

theorem reach_run : Reach handler UtxoValid False run.1 run.2 :=
  Call.reach_runAll _ (by decide)

def swappedBundles : PendingM6ids := (OrderMap.empty.insert 8 ⟨1,9⟩).insert 7 ⟨1,8⟩

def swapped : Dbs := run.1.withPending 0 swappedBundles

def seen : Dbs := run.1.withSeen (FinMap.empty.insert ⟨5,0⟩ (0,1))

theorem represents_run : run.1.toConsensusDbs.Represents := by
  obtain ⟨hw,hi⟩ := reach_run.synced.grown.wf
  exact hw.represents (hi fresh_utxoValid).1

theorem tipped_run : run.1.Tipped := reach_run.synced.tipped

theorem stores_run {sc : Sidechain} (hsc : run.1.Stores sc) :
    sc.proposal.description = description := by
  have hactive : run.1.activeSidechains.sidechain =
      FinMap.empty.insert 0 ⟨⟨0,description⟩,⟨6,1,some 7⟩⟩ := by decide +kernel
  have hproposals : run.1.proposalIdToSidechain = FinMap.empty := by decide +kernel
  rcases hsc with ⟨s,hsc⟩ | ⟨id,hsc⟩
  · rw [hactive,FinMap.get?_insert] at hsc
    split at hsc
    · obtain rfl := Option.some.inj hsc
      rfl
    · cases hsc
  · rw [hproposals] at hsc
    cases hsc

end SummarySample

open SummarySample

theorem syncStateSummary_faithful_sample :
    ∃ next next' sum, connectBlocks handler run.1 [voting] = .ok next ∧
      connectBlocks handler seen [voting] = .ok next' ∧ next.syncStateSummary = .ok sum ∧
      next'.syncStateSummary = .ok sum := by
  obtain ⟨sum,hs⟩ : ∃ sum, run.1.syncStateSummary = .ok sum := Fallible.exists_of_isOk (by decide +kernel)
  have hs' : seen.syncStateSummary = .ok sum := (Dbs.syncStateSummary_withSeen _ _).trans hs
  have hstored : run.1.blockHashes.header.get? voting.blockHash = some voting.header := by
    decide +kernel
  have hstored' : seen.blockHashes.header.get? voting.blockHash = some voting.header := by
    decide +kernel
  have hcol : NoCollision run.1 seen := fun sc sc' hsc hsc' _ =>
    (stores_run hsc).trans (stores_run ((Dbs.stores_withSeen _).mp hsc')).symm
  have hrep : seen.toConsensusDbs.Represents := represents_run.withSeen _
  have htipped : seen.Tipped := tipped_run.withSeen _
  have hsame : SameUnsummarized run.1 seen := .withSeen _ _
  obtain ⟨hiff,hsum⟩ := syncStateSummary_faithful (h := handler) represents_run hrep tipped_run htipped
    hcol hs hs' hsame [voting] (by
      intro b hb
      obtain rfl := List.mem_singleton.mp hb
      exact ⟨hstored,hstored'⟩)
  obtain ⟨next,hc⟩ : ∃ next, connectBlocks handler run.1 [voting] = .ok next :=
    Fallible.exists_of_isOk (by decide +kernel)
  obtain ⟨next',hc'⟩ := hiff.mp ⟨next,hc⟩
  obtain ⟨sum',h₁,h₂⟩ := hsum next next' hc hc'
  exact ⟨next,next',sum',hc,hc',h₁,h₂⟩

/-- Two states with the same summary whose bundles are in different orders. A vote for
the first bundle is accepted by both, and tells them apart. -/
theorem summary_hides_bundle_order :
    ∃ (dbs dbs' next next' : Dbs) (sum : SyncStateSummary) (b : Block),
      dbs.toConsensusDbs.Represents ∧ dbs'.toConsensusDbs.Represents ∧ dbs.Tipped ∧ dbs'.Tipped ∧
      NoCollision dbs dbs' ∧ dbs.syncStateSummary = .ok sum ∧ dbs'.syncStateSummary = .ok sum ∧
      dbs.blockHashes = dbs'.blockHashes ∧
      dbs.blockHashes.header.get? b.blockHash = some b.header ∧
      connectBlocks handler dbs [b] = .ok next ∧ connectBlocks handler dbs' [b] = .ok next' ∧
      next.syncStateSummary ≠ next'.syncStateSummary := by
  obtain ⟨sum,hs⟩ : ∃ sum, run.1.syncStateSummary = .ok sum := Fallible.exists_of_isOk (by decide +kernel)
  have hs' : swapped.syncStateSummary = .ok sum := by
    have hsame : run.1.syncStateSummary = swapped.syncStateSummary := by decide +kernel
    exact hsame.symm.trans hs
  obtain ⟨next,hc⟩ : ∃ next, connectBlocks handler run.1 [voting] = .ok next :=
    Fallible.exists_of_isOk (by decide +kernel)
  obtain ⟨next',hc'⟩ : ∃ next, connectBlocks handler swapped [voting] = .ok next :=
    Fallible.exists_of_isOk (by decide +kernel)
  have hne : (connectBlocks handler run.1 [voting] >>= Dbs.syncStateSummary) ≠
      (connectBlocks handler swapped [voting] >>= Dbs.syncStateSummary) := by decide +kernel
  rw [hc,hc'] at hne
  refine ⟨run.1,swapped,next,next',sum,voting,represents_run,?_,tipped_run,
    tipped_run.withPending _ _,?_,hs,hs',(Dbs.blockHashes_withPending _ _ _).symm,
    by decide +kernel,hc,hc',hne⟩
  · exact represents_run.withPending (by decide +kernel) swappedBundles
  · intro sc sc' hsc hsc' _
    exact (stores_run hsc).trans (stores_run ((Dbs.stores_withPending _).mp hsc')).symm

end Sample

end Bip300301Enforcer
