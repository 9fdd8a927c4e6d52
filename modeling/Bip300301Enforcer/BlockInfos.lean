import Bip300301Enforcer.Reorg

/-! The info that is stored about a block depends on nothing but its hash, when a hash
stands for one block. -/
namespace Bip300301Enforcer
open Lib Chain BlockHandler

section BlockInfos

variable [Bitcoin] (node : BlockHash → Block) {h : BlockHandler} {dbs dbs' : Dbs} {c c' : Chain}
  {b : Block} {k : BlockHash} {info info' : BlockInfo}

def NodeValid (c : Chain) (b : Block) : Prop := FreshTxids c b ∧ node b.blockHash = b

instance (c : Chain) (b : Block) : Decidable (NodeValid node c b) :=
  inferInstanceAs (Decidable (FreshTxids c b ∧ node b.blockHash = b))

variable {node}

theorem fresh_nodeValid : Fresh (NodeValid node) := fun _ _ hv => hv.1

theorem chain_unique {bh bh' : BlockHashDbs} (hv : c.Valid (NodeValid node))
    (hv' : c'.Valid (NodeValid node)) (hl : bh.Linked c) (hl' : bh'.Linked c')
    (he : c.parentHash = c'.parentHash) : c = c' := by
  induction c generalizing c' with
  | nil => exact (parentHash_eq_zeros.mp he.symm).symm
  | cons b c ih =>
    cases c' with
    | nil => exact absurd he b.header.blockHash_ne
    | cons b' c' =>
      have hb : b = b' := by
        rw [← hv.1.2,← hv'.1.2]
        exact congrArg node he
      subst hb
      rw [ih hv.2 hv'.2 hl.2.2 hl'.2.2 (hl.2.1.symm.trans hl'.2.1)]

/-- What connecting a block on its chain reports. -/
def InfoOf (h : BlockHandler) (node : BlockHash → Block) (k : BlockHash) (info : BlockInfo) : Prop :=
  ∃ (dbs : Dbs) (c : Chain) (b : Block) (coinbase : Transaction) (txs : List Transaction)
    (res : ProcessedBlock), Synced h (NodeValid node) False dbs c ∧ NodeValid node c b ∧
      b.blockHash = k ∧
      Accepted h dbs.blockHashes.diff.get? c dbs.toConsensusDbs b coinbase txs res ∧
      info = res.blockInfo

theorem InfoOf.of_connect {n : ℕ} {coinbase : Transaction} {txs : List Transaction}
    {res : ProcessedBlock} (hs : Synced h (NodeValid node) False dbs c) (hv : NodeValid node c b)
    (hh : dbs.blockHashes.header.get? b.blockHash = some b.header)
    (hp : PartiallyAccepted h dbs b n coinbase txs res)
    (he : res.unconsolidatedCtips.byOutpoint = .empty) :
    InfoOf h node b.blockHash res.blockInfo :=
  ⟨dbs,c,b,coinbase,txs,res,hs,hv,rfl,(hs.accepted hh hp he).2,rfl⟩

theorem InfoOf.unique (hi : InfoOf h node k info) (hi' : InfoOf h node k info') : info = info' := by
  obtain ⟨d,c,b,cb,txs,res,hs,hv,hk,ha,rfl⟩ := hi
  obtain ⟨d',c',b',cb',txs',res',hs',hv',hk',ha',rfl⟩ := hi'
  have hb : b = b' := by rw [← hv.2,← hv'.2,hk,hk']
  subst hb
  have hc : c = c' := chain_unique hs.valid hs'.valid hs.linked hs'.linked
    (ha.parent.symm.trans ha'.parent)
  subst hc
  obtain ⟨rfl,rfl⟩ := List.cons.inj (ha.txdata.symm.trans ha'.txdata)
  have hp := ha'.processed
  rw [ha.parent,hs.tipDiff_unique hs' fresh_nodeValid,(hs.unique hs' fresh_nodeValid).1,← ha.parent,
    ha.processed] at hp
  rw [Except.ok.inj hp]

def BlockHashDbs.Has (dbs : BlockHashDbs) (k : BlockHash) (info : BlockInfo) : Prop :=
  dbs.bmmCommitments.get? k = some info.bmmCommitments ∧
    dbs.coinbaseTxid.get? k = some info.coinbaseTxid ∧ dbs.events.get? k = some info.events

omit [Bitcoin] in
theorem has_recorded {bh : BlockHashDbs} {d : Diff.Block} {w : ℕ} :
    (bh.recorded k info d w).Has k info :=
  ⟨FinMap.get?_insert_self _ _ _,FinMap.get?_insert_self _ _ _,FinMap.get?_insert_self _ _ _⟩

omit [Bitcoin] in
theorem has_recorded_ne {bh : BlockHashDbs} {d : Diff.Block} {w : ℕ} {k' : BlockHash} (hk : k' ≠ k) :
    (bh.recorded k' info' d w).Has k info ↔ bh.Has k info := by
  simp only [BlockHashDbs.Has,BlockHashDbs.recorded,FinMap.get?_insert_ne _ _ hk]

structure InfosStored (h : BlockHandler) (node : BlockHash → Block) (dbs : BlockHashDbs) : Prop where
  has : ∀ k d, dbs.diff.get? k = some d → ∃ info, InfoOf h node k info ∧ dbs.Has k info
  events : ∀ k events, dbs.events.get? k = some events →
    ∃ info, InfoOf h node k info ∧ dbs.Has k info

theorem Reach.infosStored {V : Chain → Block → Prop} {stale : Prop}
    (hr : Reach h V stale dbs c) (hV : V = NodeValid node) (hstale : ¬ stale) :
    InfosStored h node dbs.blockHashes := by
  induction hr with
  | empty =>
    constructor
    · intro k d hd
      cases hd
    · intro k events he
      cases he
  | header hr hf ih => exact ⟨ih.has,ih.events⟩
  | mempool hr ih => exact ⟨ih.has,ih.events⟩
  | @connect dbs dbs' c b event hr hv hh hc ih =>
    subst hV
    rw [eq_false hstale] at hr
    have hs := hr.synced
    obtain ⟨n,coinbase,txs,res,hp,he,hrec⟩ := connectBlock_ok.mp hc
    obtain ⟨hd,w,-,-,-,tip,rfl,-⟩ := recordBlock_ok hrec
    have hself : InfoOf h node b.blockHash res.blockInfo := .of_connect hs hv hh hp he
    constructor
    · intro k d hk
      by_cases he : b.blockHash = k
      · subst he
        exact ⟨_,hself,has_recorded⟩
      · obtain ⟨info,hi,hhas⟩ := ih.has k d ((FinMap.get?_insert_ne _ _ he).symm.trans hk)
        exact ⟨info,hi,(has_recorded_ne he).mpr hhas⟩
    · intro k events hk
      by_cases he : b.blockHash = k
      · subst he
        exact ⟨_,hself,has_recorded⟩
      · obtain ⟨info,hi,hhas⟩ := ih.events k events ((FinMap.get?_insert_ne _ _ he).symm.trans hk)
        exact ⟨info,hi,(has_recorded_ne he).mpr hhas⟩
  | disconnect hr hg hd ih =>
    rcases disconnectBlock_ok.mp hd with ⟨-,-,rfl⟩ | ⟨d,hd,n,t,-,-,-,-,-,-,-,rfl⟩
    · exact ih
    · exact ⟨ih.has,ih.events⟩
  | staleDisconnect hs => exact absurd hs hstale

/-- What is stored of headers and blocks is kept. -/
structure BlockHashDbs.Keeps (dbs dbs' : BlockHashDbs) : Prop where
  header : ∀ k hd, dbs.header.get? k = some hd → dbs'.header.get? k = some hd
  height : ∀ k n, dbs.height.get? k = some n → dbs'.height.get? k = some n
  events : ∀ k events, dbs.events.get? k = some events → dbs'.events.get? k = some events

/-- A call keeps what is stored, even when it connects a block again. -/
theorem keeps_run {s : Dbs × Chain} (call : Call) (hr : Reach h (NodeValid node) False s.1 s.2)
    (hstale : call.isStale = false) :
    s.1.blockHashes.Keeps (call.run h (NodeValid node) s).1.blockHashes := by
  have hrefl : s.1.blockHashes.Keeps s.1.blockHashes := ⟨by simp,by simp,by simp⟩
  cases call with
  | header hd n =>
    simp only [Call.run]
    split
    · rename_i hf
      exact ⟨fun k hd' => BlockHashDbs.putHeader_header_some hf,
        fun k m => BlockHashDbs.putHeader_height_some hf,fun k e he => he⟩
    · exact hrefl
  | connect b =>
    simp only [Call.run]
    split
    · rename_i hv
      split
      · rename_i event dbs' hc
        obtain ⟨n,coinbase,txs,res,hp,he,hrec⟩ := connectBlock_ok.mp hc
        obtain ⟨hd,w,-,-,-,tip,rfl,-⟩ := recordBlock_ok hrec
        refine ⟨fun k hd' hk => hk,fun k m hk => hk,fun k events hk => ?_⟩
        by_cases hkb : b.blockHash = k
        · subst hkb
          obtain ⟨info,hi,hhas⟩ := (hr.infosStored rfl (by simp)).events _ events hk
          have hself : InfoOf h node b.blockHash res.blockInfo := .of_connect hr.synced hv.1 hv.2 hp he
          rw [hself.unique hi,← Option.some.inj (hhas.2.2.symm.trans hk)]
          exact FinMap.get?_insert_self _ _ _
        · exact (FinMap.get?_insert_ne _ _ hkb).trans hk
      · exact hrefl
    · exact hrefl
  | disconnect hash =>
    simp only [Call.run]
    split
    · split
      · rename_i dbs' hd
        rcases disconnectBlock_ok.mp hd with ⟨-,-,rfl⟩ | ⟨d,hd,n,t,-,-,-,-,-,-,-,rfl⟩
        · exact hrefl
        · exact hrefl
      · exact hrefl
    · exact hrefl
  | staleDisconnect hash c => cases hstale

end BlockInfos

end Bip300301Enforcer
