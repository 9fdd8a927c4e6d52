import Bip300301Enforcer.ProcessBlock

/-! Chains of accepted blocks and the tables that they lead to. A chain lists its
latest block first. -/
namespace Bip300301Enforcer
open Lib

abbrev Chain := List Block

def Block.newTxids [Bitcoin] (b : Block) : List Txid := b.txdata.tail.map Transaction.computeTxid

namespace Chain

variable [Bitcoin]

def tipHash : Chain → Option BlockHash
  | [] => none
  | b::_ => some b.blockHash

def parentHash (c : Chain) : BlockHash := c.tipHash.getD allZeros

def txids (c : Chain) : List Txid := c.flatMap Block.newTxids

/-- The transactions of a block are not those of an earlier one. -/
def FreshTxids (c : Chain) (b : Block) : Prop :=
  BlockHandler.NewTxs (fun t => t ∈ txids c) b.txdata.tail

def Valid (V : Chain → Block → Prop) : Chain → Prop
  | [] => True
  | b::c => V c b ∧ Valid V c

theorem txids_cons (b : Block) (c : Chain) : txids (b::c) = b.newTxids++txids c := rfl

theorem parentHash_cons (b : Block) (c : Chain) : parentHash (b::c) = b.blockHash := rfl

theorem parentHash_eq_zeros {c : Chain} : c.parentHash = allZeros ↔ c = [] := by
  cases c with
  | nil => simp [parentHash,tipHash]
  | cons b c =>
    have hne : b.blockHash ≠ allZeros := b.header.blockHash_ne
    simp [parentHash_cons,hne]

theorem tipHash_of_parentHash (c : Chain) :
    (if c.parentHash ≠ allZeros then some c.parentHash else none) = c.tipHash := by
  cases c with
  | nil => simp [parentHash,tipHash]
  | cons b c =>
    have hne : b.blockHash ≠ allZeros := b.header.blockHash_ne
    simp [parentHash_cons,tipHash,hne]

end Chain

open Chain

/-- All blocks that count as valid have new transactions. -/
def Fresh [Bitcoin] (V : Chain → Block → Prop) : Prop := ∀ c b, V c b → FreshTxids c b

/-- Nothing but sidechain proposals is stored. -/
structure ConsensusDbs.Bare [Bitcoin] (P : Prop) (t : ConsensusDbs) : Prop where
  active : ActiveSidechainDbs.Like P t.activeSidechains .empty
  proposals : ∀ id sc, t.proposalIdToSidechain.get? id = some sc →
    sc.proposal.computeId = id ∧ sc.status.activationHeight = none

/-- The tables from which a chain was grown. They are empty, unless blocks have
been disconnected that were no longer connected. -/
structure Base [Bitcoin] (stale P : Prop) (c : Chain) (t : ConsensusDbs) : Prop where
  bare : t.Bare P
  empty : ¬ stale → c = [] ∧ t.proposalIdToSidechain = .empty

structure Accepted [Bitcoin] (h : BlockHandler) (D : BlockHash → Option Diff.Block) (c : Chain)
    (t : ConsensusDbs) (b : Block) (coinbase : Transaction) (txs : List Transaction)
    (res : ProcessedBlock) : Prop where
  parent : b.header.prevBlockhash = c.parentHash
  txdata : b.txdata = coinbase::txs
  processed : h.processBlock t c.length b.header.prevBlockhash b.blockHash
    (D b.header.prevBlockhash) coinbase txs = .ok res
  consolidated : res.unconsolidatedCtips.byOutpoint = .empty

/-- The tables that a chain leads to, when its blocks are accepted one after
another and their diffs are stored in `D`. -/
inductive Grown [Bitcoin] (h : BlockHandler) (V : Chain → Block → Prop) (stale : Prop)
    (D : BlockHash → Option Diff.Block) : Chain → ConsensusDbs → Prop
  | base {c : Chain} {t : ConsensusDbs} (base : Base stale (Fresh V) c t) : Grown h V stale D c t
  | connect {c : Chain} {t t' : ConsensusDbs} {b : Block} {coinbase : Transaction}
      {txs : List Transaction} {res : ProcessedBlock} (grown : Grown h V stale D c t) (valid : V c b)
      (accepted : Accepted h D c t b coinbase txs res) (stored : D b.blockHash = some res.diff)
      (like : ConsensusDbs.Like (Fresh V) t' res.dbs) : Grown h V stale D (b::c) t'

section Grown

variable [Bitcoin] {h : BlockHandler} {V : Chain → Block → Prop} {stale : Prop}
  {D D' : BlockHash → Option Diff.Block} {c : Chain} {t t' : ConsensusDbs}

theorem ConsensusDbs.Bare.wf {P : Prop} (hb : t.Bare P) : t.Wf := by
  obtain ⟨i,hi,-⟩ := hb.active
  refine ⟨?_,?_,hb.proposals⟩
  · rw [hi]
    refine ActiveSidechainDbs.tables_setIndex ⟨fun s => rfl,fun s => ?_,fun s hs => ?_⟩
    · constructor
      · intro n
        simp [ActiveSidechainDbs.empty,ActiveSidechainDbs.count]
      · intro n u hu; simp [ActiveSidechainDbs.empty] at hu
      · intro u hu; simp [ActiveSidechainDbs.empty] at hu
      · intro n u u' hu; simp [ActiveSidechainDbs.empty] at hu
      · intro _; simp [ActiveSidechainDbs.empty]
      · intro n u _ hu; simp [ActiveSidechainDbs.empty] at hu
    · simp [ActiveSidechainDbs.empty] at hs
  · intro s sc hs
    rw [hi] at hs
    simp [ActiveSidechainDbs.empty,ActiveSidechainDbs.setIndex] at hs

theorem ConsensusDbs.Bare.like {P : Prop} (hb : t.Bare P) (hl : ConsensusDbs.Like P t' t) :
    t'.Bare P :=
  ⟨hl.1.trans hb.active,by rw [hl.2]; exact hb.proposals⟩

theorem Base.like {P : Prop} (hb : Base stale P c t) (hl : ConsensusDbs.Like P t' t) :
    Base stale P c t' :=
  ⟨hb.bare.like hl,fun hs => ⟨(hb.empty hs).1,hl.2.trans (hb.empty hs).2⟩⟩

theorem Grown.like (hg : Grown h V stale D c t) (hl : ConsensusDbs.Like (Fresh V) t' t) :
    Grown h V stale D c t' := by
  cases hg with
  | base hb => exact .base (hb.like hl)
  | connect hg hv ha hs hlike => exact .connect hg hv ha hs (hl.trans hlike)

theorem Grown.congr (hg : Grown h V stale D c t)
    (hD : ∀ k, k = allZeros ∨ k ∈ c.map Block.blockHash → D' k = D k) : Grown h V stale D' c t := by
  induction hg with
  | base hb => exact .base hb
  | @connect c t t' b coinbase txs res hg hv ha hs hl ih =>
    have hrest : ∀ k, k = allZeros ∨ k ∈ c.map Block.blockHash → D' k = D k := by
      rintro k (hk | hk)
      · exact hD k (.inl hk)
      · exact hD k (.inr (List.mem_cons_of_mem _ hk))
    have hprev : D' b.header.prevBlockhash = D b.header.prevBlockhash := by
      apply hrest
      rw [ha.parent]
      cases c with
      | nil => exact .inl rfl
      | cons b' c => exact .inr (by simp [parentHash_cons])
    refine .connect (ih hrest) hv ⟨ha.parent,ha.txdata,?_,ha.consolidated⟩ ?_ hl
    · rw [hprev]; exact ha.processed
    · rw [hD _ (.inr (by simp))]; exact hs

theorem Accepted.newTxids {b : Block} {coinbase : Transaction} {txs : List Transaction}
    {res : ProcessedBlock} (ha : Accepted h D c t b coinbase txs res) :
    b.newTxids = txs.map Transaction.computeTxid := by
  simp [Block.newTxids,ha.txdata]

def IndexKnown (c : Chain) (t : ConsensusDbs) : Prop :=
  t.activeSidechains.Indexed ∧ t.activeSidechains.MadeBy (fun x => x ∈ c.txids)

theorem Accepted.spec {b : Block} {coinbase : Transaction} {txs : List Transaction}
    {res : ProcessedBlock} (ha : Accepted h D c t b coinbase txs res) (hw : t.Wf) (hv : V c b)
    (hi : Fresh V → IndexKnown c t) :
    res.dbs.Wf ∧ Undo.Undoes Diff.Block.undo (ConsensusDbs.Like (Fresh V)) res.diff res.dbs t ∧
      (Fresh V → IndexKnown (b::c) res.dbs) := by
  obtain ⟨h₁,h₂,h₃⟩ := BlockHandler.processBlock_spec (P := Fresh V) (T := fun x => x ∈ c.txids)
    ha.processed hw (fun hf => by
      refine ⟨(hi hf).1,(hi hf).2,?_⟩
      have hfresh := hf c b hv
      rw [FreshTxids,ha.txdata] at hfresh
      exact hfresh)
  refine ⟨h₁,h₂,fun hf => ⟨(h₃ hf).1,(h₃ hf).2.mono ?_⟩⟩
  intro x hx
  rw [txids_cons,List.mem_append,ha.newTxids]
  tauto

theorem Grown.wf (hg : Grown h V stale D c t) : t.Wf ∧ (Fresh V → IndexKnown c t) := by
  induction hg with
  | base hb =>
    refine ⟨hb.bare.wf,fun hf => ?_⟩
    have he := hb.bare.active.eq hf
    constructor
    · intro o s v n
      simp [he,ActiveSidechainDbs.empty]
    · intro s n u hu
      rw [he] at hu
      simp [ActiveSidechainDbs.empty] at hu
  | connect hg hv ha hs hl ih =>
    obtain ⟨hw,-,hi⟩ := ha.spec ih.1 hv ih.2
    refine ⟨hl.wf hw,fun hf => ?_⟩
    rw [hl.eq hf]
    exact hi hf

theorem Grown.undo {b : Block} (hg : Grown h V stale D (b::c) t) :
    (∃ d t', D b.blockHash = some d ∧ d.undo t = .ok t' ∧ Grown h V stale D c t') ∨
      Base stale (Fresh V) (b::c) t := by
  cases hg with
  | base hb => exact .inr hb
  | @connect _ t₀ _ _ coinbase txs res hg hv ha hs hl =>
    obtain ⟨hw,hi⟩ := hg.wf
    obtain ⟨-,hu,-⟩ := ha.spec hw hv hi
    obtain ⟨t',ht',hl'⟩ := hu t hl
    exact .inl ⟨res.diff,t',hs,ht',hg.like hl'⟩

/-- The tables of a chain are determined by the chain. -/
theorem Grown.unique {D₁ D₂ : BlockHash → Option Diff.Block} {t₁ t₂ : ConsensusDbs} (hf : Fresh V)
    (hzero : D₁ allZeros = D₂ allZeros) (h₁ : Grown h V False D₁ c t₁)
    (h₂ : Grown h V False D₂ c t₂) : t₁ = t₂ ∧ ∀ b ∈ c, D₁ b.blockHash = D₂ b.blockHash := by
  induction c generalizing t₁ t₂ with
  | nil =>
    cases h₁ with
    | base hb₁ =>
      cases h₂ with
      | base hb₂ =>
        obtain ⟨a₁,p₁⟩ := t₁
        obtain ⟨a₂,p₂⟩ := t₂
        have ha₁ : a₁ = .empty := hb₁.bare.active.eq hf
        have ha₂ : a₂ = .empty := hb₂.bare.active.eq hf
        have hp₁ : p₁ = .empty := (hb₁.empty id).2
        have hp₂ : p₂ = .empty := (hb₂.empty id).2
        exact ⟨by rw [ha₁,ha₂,hp₁,hp₂],by simp⟩
  | cons b c ih =>
    cases h₁ with
    | base hb => exact absurd (hb.empty id).1 (by simp)
    | @connect _ s₁ _ _ cb₁ txs₁ res₁ hg₁ hv₁ ha₁ hs₁ hl₁ =>
      cases h₂ with
      | base hb => exact absurd (hb.empty id).1 (by simp)
      | @connect _ s₂ _ _ cb₂ txs₂ res₂ hg₂ hv₂ ha₂ hs₂ hl₂ =>
        obtain ⟨rfl,hD⟩ := ih hg₁ hg₂
        obtain ⟨rfl,rfl⟩ := List.cons.inj (ha₁.txdata.symm.trans ha₂.txdata)
        have hprev : D₁ b.header.prevBlockhash = D₂ b.header.prevBlockhash := by
          rw [ha₁.parent]
          cases c with
          | nil => exact hzero
          | cons b' c => exact hD b' (by simp)
        have hres := ha₁.processed
        rw [hprev,ha₂.processed] at hres
        obtain rfl := Except.ok.inj hres
        refine ⟨(hl₁.eq hf).trans (hl₂.eq hf).symm,?_⟩
        intro b' hb'
        rcases List.mem_cons.mp hb' with rfl | hb'
        · rw [hs₁,hs₂]
        · exact hD b' hb'

end Grown

end Bip300301Enforcer
