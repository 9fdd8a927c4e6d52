import Mathlib.Algebra.Ring.Int.Defs
import Bip300301Enforcer.TreasuryLedger
import Bip300301Enforcer.Reach

/-! The transactions of a block one after another, each with the tables and the
unspent outputs that it meets. -/
namespace Bip300301Enforcer
open Lib Chain BlockHandler

/-- A transaction of a block, with what was there before it. -/
structure TxStep where
  before : TxState
  utxos : Utxos
  done : List Transaction
  tx : Transaction
  after : TxState

section Steps

variable [Bitcoin]

def stepsFrom (f : TxState → Transaction → Res TxState) :
    TxState → Utxos → List Transaction → List Transaction → List TxStep
  | _, _, _, [] => []
  | acc, L, done, tx::rest =>
    match f acc tx, L.applyTx tx with
    | .ok acc', some L' => ⟨acc,L,done,tx,acc'⟩::stepsFrom f acc' L' (done++[tx]) rest
    | _, _ => []

namespace BlockHandler

variable (h : BlockHandler)

/-- The loop body of a block at some height. Below the activation height no
transaction does anything. -/
def connectTxAt (height : ℕ) (accepted : BmmCommitments) (parent blockHash : BlockHash)
    (acc : TxState) (tx : Transaction) : Res TxState :=
  if height < h.params.bip300ActivationHeight then .ok acc
  else h.connectTx accepted parent blockHash acc tx

/-- The state in which the first transaction after the coinbase is read. -/
def startOf (D : BlockHash → Option Diff.Block) (c : Chain) (t : ConsensusDbs) (b : Block)
    (coinbase : Transaction) : Res (BmmCommitments × TxState) :=
  if c.length < h.params.bip300ActivationHeight then
    .ok (.empty,⟨t.activeSidechains,.default,[],[],[]⟩)
  else do
    let (t,accepted,events,_) ← h.connectCoinbase t c.length b.header.prevBlockhash
      (D b.header.prevBlockhash) coinbase
    return (accepted,⟨t.activeSidechains,.default,[],events,[]⟩)

def txSteps (D : BlockHash → Option Diff.Block) (c : Chain) (t : ConsensusDbs) (b : Block) :
    List TxStep :=
  match b.txdata with
  | [] => []
  | coinbase::txs =>
    match h.startOf D c t b coinbase, c.utxos with
    | .ok (accepted,acc), some L =>
      stepsFrom (h.connectTxAt c.length accepted b.header.prevBlockhash b.blockHash) acc
        (L.add coinbase) [] txs
    | _, _ => []

def blockSteps (dbs : Dbs) (c : Chain) (b : Block) : List TxStep :=
  h.txSteps dbs.blockHashes.diff.get? c dbs.toConsensusDbs b

end BlockHandler

section Invariant

variable {f : TxState → Transaction → Res TxState} {txs : List Transaction}

/-- What each accepted transaction keeps holds before every step, and at the end. -/
theorem stepsFrom_spec (I : List Transaction → TxState → Utxos → Prop) {acc acc' : TxState}
    {L L' : Utxos} (done : List Transaction) (hf : txs.foldlM f acc = .ok acc')
    (hL : txs.foldlM Utxos.applyTx L = some L') (init : I done acc L)
    (step : ∀ done₁ tx rest acc acc' L L', txs = done₁++tx::rest → I (done++done₁) acc L →
      f acc tx = .ok acc' → L.applyTx tx = some L' → I (done++done₁++[tx]) acc' L') :
    (stepsFrom f acc L done txs).map TxStep.tx = txs ∧ I (done++txs) acc' L' ∧
      ∀ st ∈ stepsFrom f acc L done txs, I st.done st.before st.utxos ∧
        (∃ done₁ rest, st.done = done++done₁ ∧ txs = done₁++st.tx::rest) ∧
        f st.before st.tx = .ok st.after ∧ ∃ L₁, st.utxos.applyTx st.tx = some L₁ := by
  induction txs generalizing acc L done with
  | nil =>
    simp only [List.foldlM_nil,Fallible.pure_ok] at hf
    obtain rfl := Option.some.inj hL
    subst hf
    simp [stepsFrom,init]
  | cons tx rest ih =>
    rw [List.foldlM_cons,Fallible.bind_ok] at hf
    rw [List.foldlM_cons] at hL
    obtain ⟨acc₁,h₁,hf⟩ := hf
    obtain ⟨L₁,hL₁,hL⟩ := Option.bind_eq_some_iff.mp hL
    have hinit := step [] tx rest acc acc₁ L L₁ rfl (by simpa using init) h₁ hL₁
    rw [List.append_nil] at hinit
    obtain ⟨hmap,hend,hall⟩ := ih (done++[tx]) hf hL hinit (by
      intro done₁ tx' rest' a a' l l' hsplit hI ha hl
      have hs := step (tx::done₁) tx' rest' a a' l l' (by simp [hsplit]) (by simpa using hI) ha hl
      simpa using hs)
    simp only [stepsFrom,h₁,hL₁]
    refine ⟨by rw [List.map_cons,hmap],by simpa using hend,?_⟩
    intro st hst
    rcases List.mem_cons.mp hst with rfl | hst
    · exact ⟨init,⟨[],rest,by simp,rfl⟩,h₁,L₁,hL₁⟩
    · obtain ⟨hI,⟨done₁,rest',hdone,hsplit⟩,ha,hl⟩ := hall st hst
      exact ⟨hI,⟨tx::done₁,rest',by simp [hdone],by simp [hsplit]⟩,ha,hl⟩

theorem stepsFrom_sum (F : TxState → ℤ) (g : TxStep → ℤ) {acc acc' : TxState} {L L' : Utxos}
    (done : List Transaction) (hf : txs.foldlM f acc = .ok acc')
    (hL : txs.foldlM Utxos.applyTx L = some L')
    (step : ∀ st ∈ stepsFrom f acc L done txs, F st.after = F st.before+g st) :
    F acc' = F acc+((stepsFrom f acc L done txs).map g).sum := by
  induction txs generalizing acc L done with
  | nil =>
    simp only [List.foldlM_nil,Fallible.pure_ok] at hf
    subst hf
    simp [stepsFrom]
  | cons tx rest ih =>
    rw [List.foldlM_cons,Fallible.bind_ok] at hf
    rw [List.foldlM_cons] at hL
    obtain ⟨acc₁,h₁,hf⟩ := hf
    obtain ⟨L₁,hL₁,hL⟩ := Option.bind_eq_some_iff.mp hL
    simp only [stepsFrom,h₁,hL₁] at step ⊢
    have hfirst := step _ (List.mem_cons_self ..)
    have hrest := ih (done++[tx]) hf hL (fun st hst => step st (List.mem_cons_of_mem _ hst))
    simp only at hfirst
    rw [hrest,hfirst,List.map_cons,List.sum_cons,add_assoc]

end Invariant

end Steps

section Backed
open ActiveSidechainDbs

variable [Bitcoin] {h : BlockHandler} {stale : Prop} {D : BlockHash → Option Diff.Block} {c : Chain}
  {t t' : ConsensusDbs} {b : Block} {coinbase : Transaction} {txs : List Transaction}
  {res : ProcessedBlock}

theorem Grown.active_empty {V : Chain → Block → Prop} (hg : Grown h V stale D c t) (hf : Fresh V)
    (hc : c.length ≤ h.params.bip300ActivationHeight) : t.activeSidechains = .empty := by
  induction hg with
  | base hb => exact hb.bare.active.eq hf
  | connect hg hv ha hs hl ih =>
    rw [List.length_cons] at hc
    rw [hl.eq hf]
    rcases processBlock_ok ha.processed with ⟨-,rfl⟩ | ⟨hle,-⟩
    · exact ih (by omega)
    · omega

def usedTxids (c : Chain) (coinbase : Transaction) (done : List Transaction) (x : Txid) : Prop :=
  x ∈ c.allTxids ∨ x = coinbase.computeTxid ∨ x ∈ done.map Transaction.computeTxid

def treasuryTxids (c : Chain) (done : List Transaction) (x : Txid) : Prop :=
  x ∈ c.txids ∨ x ∈ done.map Transaction.computeTxid

/-- The tables of a chain agree with its unspent outputs. -/
def ChainBacked (h : BlockHandler) (c : Chain) (t : ConsensusDbs) : Prop :=
  ∃ L, c.utxos = some L ∧
    Backed h.params.opDrivechain L (fun x => x ∈ c.txids) (fun x => x ∈ c.allTxids) t.activeSidechains

/-- The tables and outputs that a transaction of a block meets agree. -/
def StepBacked (h : BlockHandler) (c : Chain) (coinbase : Transaction) (done : List Transaction)
    (acc : TxState) (L : Utxos) : Prop :=
  InBlock h.params.opDrivechain L (treasuryTxids c done) (usedTxids c coinbase done)
    (fun x => x ∈ done.map Transaction.computeTxid) acc.dbs acc.unconsolidatedCtips

/-- What is known about a transaction of an accepted block. -/
structure StepOk (h : BlockHandler) (c : Chain) (coinbase : Transaction) (st : TxStep) : Prop where
  backed : StepBacked h c coinbase st.done st.before st.utxos
  new : ¬ usedTxids c coinbase st.done st.tx.computeTxid
  spends : ∃ L', st.utxos.applyTx st.tx = some L'
  did : (st.before.dbs = .empty ∧ st.before.unconsolidatedCtips = .default ∧ st.after = st.before) ∨
    ∃ infos res, TxDone h st.before st.tx st.after infos res

/-- The outputs of a coinbase are no treasury outputs. -/
theorem backed_coinbase {L : Utxos} {dbs : ActiveSidechainDbs} {acc : TxState}
    (hb : Backed h.params.opDrivechain L (fun x => x ∈ c.txids) (fun x => x ∈ c.allTxids) dbs)
    (hnew : coinbase.computeTxid ∉ c.txids) (hst : SameTreasury acc.dbs dbs) (ht : acc.dbs.Tables)
    (hu : acc.unconsolidatedCtips = .default) : StepBacked h c coinbase [] acc (L.add coinbase) := by
  have hkeep : ∀ o : OutPoint, o.txid ∈ c.txids → (L.add coinbase).get? o = L.get? o := by
    intro o ho
    rw [Utxos.get?_add,if_neg]
    intro he
    exact hnew (he ▸ ho)
  have hmade : ∀ s cc, dbs.ctip.get? s = some cc → cc.outpoint.txid ∈ c.txids := by
    intro s cc hc
    obtain ⟨n,u,-,hu,ho,-⟩ := (hb.tables.history s).last hc
    rw [← ho]
    exact hb.madeBy s n u hu
  refine ⟨⟨ht,hst.indexed hb.indexed,hst.madeBy (hb.madeBy.mono (fun x hx => .inl hx)),?_,?_,?_,?_⟩,
    by simp,by simp [hu,UnconsolidatedCtips.default]⟩
  · rintro x (hx | hx)
    · exact .inl (hb.le x hx)
    · simp at hx
  · intro o out ho
    rw [Utxos.get?_add] at ho
    split at ho
    · rename_i he
      exact .inr (.inl he)
    · exact .inl (hb.outputs o out ho)
  · intro s cc hc
    rw [hst.ctip] at hc
    obtain ⟨out,hout,hv,hp⟩ := hb.ctip s cc hc
    exact ⟨out,by rw [hkeep _ (hmade s cc hc),hout],hv,hp⟩
  · intro o s v n out hi hout
    rw [hst.index] at hi
    obtain ⟨u,hu,ho,-⟩ := (hb.indexed o s v n).mp hi
    rw [hkeep o (ho ▸ hb.madeBy s n u hu)] at hout
    rw [hst.ctip]
    exact hb.current o s v n out hi hout

/-- The tables of an accepted block, before and after its transactions. -/
theorem Accepted.start (ha : Accepted h D c t b coinbase txs res) (hw : t.Wf) :
    ∃ accepted acc acc', h.startOf D c t b coinbase = .ok (accepted,acc) ∧
      txs.foldlM (h.connectTxAt c.length accepted b.header.prevBlockhash b.blockHash) acc = .ok acc' ∧
      res.dbs.activeSidechains = acc'.dbs ∧ res.unconsolidatedCtips = acc'.unconsolidatedCtips ∧
      res.blockInfo.events = acc'.events ∧ res.diff.txs = acc'.diffs ∧
      SameTreasury acc.dbs t.activeSidechains ∧ acc.dbs.Tables ∧ acc.unconsolidatedCtips = .default ∧
      NoDeposits acc.events ∧ acc.diffs = [] := by
  rcases processBlock_ok ha.processed with ⟨hlt,hres⟩ | ⟨hle,scan,t₁,t₂,accepted,events,d,acc,hcon,hc,hf,hres⟩
  · refine ⟨.empty,_,⟨t.activeSidechains,.default,[],[],[]⟩,by rw [startOf,if_pos hlt],?_,?_⟩
    · have hid : ∀ l : List Transaction, l.foldlM (h.connectTxAt c.length .empty
          b.header.prevBlockhash b.blockHash) ⟨t.activeSidechains,.default,[],[],[]⟩ =
          .ok ⟨t.activeSidechains,.default,[],[],[]⟩ := by
        intro l
        induction l with
        | nil => rfl
        | cons tx l ih => rw [List.foldlM_cons,connectTxAt,if_pos hlt,Fallible.ok_bind,ih]
      exact hid txs
    · rw [hres]
      exact ⟨rfl,rfl,rfl,rfl,.refl _,hw.tables,rfl,by simp [NoDeposits],rfl⟩
  · have hge : ¬ c.length < h.params.bip300ActivationHeight := by omega
    have hstep : h.connectTxAt c.length accepted b.header.prevBlockhash b.blockHash =
        h.connectTx accepted b.header.prevBlockhash b.blockHash := by
      funext acc tx
      rw [connectTxAt,if_neg hge]
    refine ⟨accepted,_,acc,by rw [startOf,if_neg hge,hcon]; rfl,by rw [hstep]; exact hf,?_⟩
    rw [hres]
    exact ⟨rfl,rfl,rfl,rfl,(hc.frame hw).1,(hc.wf hw).2.tables,rfl,hc.noDeposits,rfl⟩

theorem backed_empty {op : OpDrivechain} {L : Utxos} {M T : Txid → Prop} (hle : ∀ x, M x → T x)
    (hout : ∀ o out, L.get? o = some out → T o.txid) : Backed op L M T .empty := by
  have hbare : ConsensusDbs.Bare True .empty :=
    ⟨.refl _ _,by simp [ConsensusDbs.empty]⟩
  refine ⟨hbare.wf.tables,?_,?_,hle,hout,?_,?_⟩
  · intro o s v n; simp [ActiveSidechainDbs.empty]
  · intro s n u hu; simp [ActiveSidechainDbs.empty] at hu
  · intro s cc hc; simp [ActiveSidechainDbs.empty] at hc
  · intro o s v n out hi; simp [ActiveSidechainDbs.empty] at hi

theorem inBlock_empty {op : OpDrivechain} {L : Utxos} {M T done : Txid → Prop}
    (hle : ∀ x, M x → T x) (hmade : ∀ x, done x → M x)
    (hout : ∀ o out, L.get? o = some out → T o.txid) : InBlock op L M T done .empty .default := by
  refine ⟨backed_empty hle hout,hmade,?_⟩
  intro o s v
  simp [UnconsolidatedCtips.default,ActiveSidechainDbs.empty]

theorem UtxoValid.new_tx (hv : UtxoValid c b) (htx : b.txdata = coinbase::txs)
    {done rest : List Transaction} {tx : Transaction} (hsplit : txs = done++tx::rest) :
    ¬ usedTxids c coinbase done tx.computeTxid := by
  have hids : b.newTxids = txs.map Transaction.computeTxid := by simp [Block.newTxids,htx]
  have hmem : tx.computeTxid ∈ b.newTxids := by
    rw [hids]
    exact List.mem_map.mpr ⟨tx,by simp [hsplit],rfl⟩
  have hnodup := hv.txids.nodup
  obtain ⟨hc,hcb⟩ := hv.txids.new _ hmem
  rw [hids,hsplit,List.map_append,List.map_cons,List.nodup_append] at hnodup
  rintro (hx | hx | hx)
  · exact hc hx
  · rw [htx] at hcb
    exact hcb (by simp [hx])
  · exact hnodup.2.2 _ hx _ (List.mem_cons_self ..) rfl

theorem mem_txids_snoc {done : List Transaction} {tx : Transaction} {x : Txid} :
    x ∈ (done++[tx]).map Transaction.computeTxid ↔
      x ∈ done.map Transaction.computeTxid ∨ x = tx.computeTxid := by
  simp only [List.map_append,List.map_cons,List.map_nil,List.mem_append,List.mem_singleton]

theorem stepBacked_snoc {acc : TxState} {L : Utxos} {done : List Transaction} {tx : Transaction} :
    StepBacked h c coinbase (done++[tx]) acc L ↔
      InBlock h.params.opDrivechain L (fun x => treasuryTxids c done x ∨ x = tx.computeTxid)
        (fun x => usedTxids c coinbase done x ∨ x = tx.computeTxid)
        (fun x => x ∈ done.map Transaction.computeTxid ∨ x = tx.computeTxid) acc.dbs
        acc.unconsolidatedCtips := by
  have hM : treasuryTxids c (done++[tx]) =
      fun x => treasuryTxids c done x ∨ x = tx.computeTxid := by
    funext x
    simp only [treasuryTxids,mem_txids_snoc,or_assoc]
  have hT : usedTxids c coinbase (done++[tx]) =
      fun x => usedTxids c coinbase done x ∨ x = tx.computeTxid := by
    funext x
    simp only [usedTxids,mem_txids_snoc,or_assoc]
  have hD : (fun x => x ∈ (done++[tx]).map Transaction.computeTxid) =
      fun x => x ∈ done.map Transaction.computeTxid ∨ x = tx.computeTxid := by
    funext x
    exact propext mem_txids_snoc
  rw [StepBacked,hM,hT,hD]

theorem stepBacked_done {acc acc' : TxState} {L L' : Utxos} {done : List Transaction}
    {tx : Transaction} {infos : FinMap SidechainNumber TxCtipsInfo}
    {r : Option DepositsOrSuccessfulWithdrawal} (hb : StepBacked h c coinbase done acc L)
    (hnew : ¬ usedTxids c coinbase done tx.computeTxid) (hd : TxDone h acc tx acc' infos r)
    (hL : L.applyTx tx = some L') : StepBacked h c coinbase (done++[tx]) acc' L' :=
  stepBacked_snoc.mpr (hb.step hd hL hnew)

/-- One more transaction of a block. -/
theorem stepBacked_step {accepted : BmmCommitments} {parent hash : BlockHash} {acc acc' : TxState}
    {L L' : Utxos} {done : List Transaction} {tx : Transaction}
    (hb : StepBacked h c coinbase done acc L) (hnew : ¬ usedTxids c coinbase done tx.computeTxid)
    (hempty : c.length < h.params.bip300ActivationHeight →
      acc.dbs = .empty ∧ acc.unconsolidatedCtips = .default)
    (hf : h.connectTxAt c.length accepted parent hash acc tx = .ok acc')
    (hL : L.applyTx tx = some L') : StepBacked h c coinbase (done++[tx]) acc' L' := by
  unfold connectTxAt at hf
  split at hf
  · rename_i hlt
    obtain rfl := Except.ok.inj hf
    obtain ⟨he,hu⟩ := hempty hlt
    rw [stepBacked_snoc,he,hu]
    refine inBlock_empty (fun x hx => hx.imp_left (hb.le x)) (fun x hx => hx.imp_left (hb.made x)) ?_
    obtain ⟨-,-,hget⟩ := Utxos.applyTx_some hL
    intro o out ho
    by_cases htx : o.txid = tx.computeTxid
    · exact .inr htx
    · rw [hget,if_neg htx] at ho
      split at ho
      · cases ho
      · exact .inl (hb.outputs o out ho)
  · obtain ⟨infos,r,hd⟩ := connectTx_ok hf
    exact stepBacked_done hb hnew hd hL

/-- The tables at the end of a block agree with the outputs that are unspent then. -/
def EndBacked (h : BlockHandler) (c : Chain) (b : Block) (coinbase : Transaction)
    (txs : List Transaction) (res : ProcessedBlock) : Prop :=
  ∃ L, Chain.utxos (b::c) = some L ∧
    InBlock h.params.opDrivechain L (treasuryTxids c txs) (usedTxids c coinbase txs)
      (fun x => x ∈ txs.map Transaction.computeTxid) res.dbs.activeSidechains res.unconsolidatedCtips

/-- In an accepted block all transactions meet tables that agree with the unspent
outputs, and so do the tables at its end. -/
theorem Accepted.steps (ha : Accepted h D c t b coinbase txs res) (hw : t.Wf)
    (hv : UtxoValid c b) (hcb : ChainBacked h c t)
    (hempty : c.length < h.params.bip300ActivationHeight → t.activeSidechains = .empty) :
    (h.txSteps D c t b).map TxStep.tx = txs ∧ EndBacked h c b coinbase txs res ∧
      ∀ st ∈ h.txSteps D c t b, StepOk h c coinbase st := by
  obtain ⟨L,hL,hback⟩ := hcb
  obtain ⟨accepted,acc,acc',hstart,hf,hdbs,hu,-,-,hst,htab,hdef,-,-⟩ := ha.start hw
  obtain ⟨L',hL'⟩ := hv.spends
  have happly : txs.foldlM Utxos.applyTx (L.add coinbase) = some L' := by
    simpa [utxos,hL,Utxos.applyBlock,ha.txdata] using hL'
  have hcoin : coinbase.computeTxid ∉ c.txids := hv.txids.coinbase coinbase (by simp [ha.txdata])
  have hinit : c.length < h.params.bip300ActivationHeight →
      acc.dbs = .empty ∧ acc.unconsolidatedCtips = .default := by
    intro hlt
    rw [startOf,if_pos hlt] at hstart
    obtain ⟨-,rfl⟩ := Prod.mk.inj (Except.ok.inj hstart)
    exact ⟨hempty hlt,rfl⟩
  have hspec := stepsFrom_spec (f := h.connectTxAt c.length accepted b.header.prevBlockhash b.blockHash)
    (fun done acc L => StepBacked h c coinbase done acc L ∧
      (c.length < h.params.bip300ActivationHeight →
        acc.dbs = .empty ∧ acc.unconsolidatedCtips = .default)) [] hf happly
    ⟨backed_coinbase hback hcoin hst htab hdef,hinit⟩ ?_
  · obtain ⟨hmap,⟨hend,-⟩,hall⟩ := hspec
    have hsteps : h.txSteps D c t b = stepsFrom (h.connectTxAt c.length accepted
        b.header.prevBlockhash b.blockHash) acc (L.add coinbase) [] txs := by
      simp only [txSteps,ha.txdata,hstart,hL]
    rw [hsteps]
    refine ⟨hmap,⟨L',hL',by rw [hdbs,hu]; exact hend⟩,?_⟩
    · intro st hst
      obtain ⟨⟨hI,he⟩,⟨done₁,rest,hdone,hsplit⟩,hfa,hla⟩ := hall st hst
      rw [List.nil_append] at hdone
      refine ⟨hI,by rw [hdone]; exact hv.new_tx ha.txdata hsplit,hla,?_⟩
      unfold connectTxAt at hfa
      split at hfa
      · rename_i hlt
        exact .inl ⟨(he hlt).1,(he hlt).2,(Except.ok.inj hfa).symm⟩
      · exact .inr (connectTx_ok hfa)
  · rintro done tx rest a a' l l' hsplit ⟨hI,he⟩ hfa hla
    rw [List.nil_append] at hI ⊢
    refine ⟨stepBacked_step hI (hv.new_tx ha.txdata hsplit) he hfa hla,?_⟩
    intro hlt
    rw [connectTxAt,if_pos hlt] at hfa
    obtain rfl := Except.ok.inj hfa
    exact he hlt

theorem Accepted.chainBacked (ha : Accepted h D c t b coinbase txs res)
    (he : EndBacked h c b coinbase txs res) : ChainBacked h (b::c) res.dbs := by
  obtain ⟨L,hL,hend⟩ := he
  refine ⟨L,hL,hend.tables,hend.indexed,hend.madeBy.mono ?_,?_,?_,hend.ctip,hend.current⟩
  · rintro x (hx | hx)
    · exact List.mem_append_right _ hx
    · rw [txids_cons,ha.newTxids]
      exact List.mem_append_left _ hx
  · exact fun x hx => txids_subset_allTxids (b::c) hx
  · intro o out ho
    simp only [allTxids,List.flatMap_cons,List.mem_append,ha.txdata,List.map_cons,List.mem_cons]
    rcases hend.outputs o out ho with hx | hx | hx
    · exact .inr hx
    · exact .inl (.inl hx)
    · exact .inl (.inr hx)

theorem foldlM_applyTx_outputs {L L' : Utxos} {l : List Transaction}
    (hl : l.foldlM Utxos.applyTx L = some L') {o : OutPoint} {out : TxOut}
    (ho : L'.get? o = some out) : (∃ out', L.get? o = some out') ∨
      o.txid ∈ l.map Transaction.computeTxid := by
  induction l generalizing L with
  | nil =>
    obtain rfl := Option.some.inj hl
    exact .inl ⟨out,ho⟩
  | cons tx l ih =>
    rw [List.foldlM_cons] at hl
    obtain ⟨L₁,h₁,hl⟩ := Option.bind_eq_some_iff.mp hl
    rcases ih hl with ⟨out',ho'⟩ | hm
    · obtain ⟨-,-,hget⟩ := Utxos.applyTx_some h₁
      by_cases htx : o.txid = tx.computeTxid
      · exact .inr (by simp [htx])
      · rw [hget,if_neg htx] at ho'
        split at ho'
        · cases ho'
        · exact .inl ⟨out',ho'⟩
    · exact .inr (List.mem_cons_of_mem _ hm)

theorem utxos_outputs {L : Utxos} (hL : c.utxos = some L) (o : OutPoint) (out : TxOut)
    (ho : L.get? o = some out) : o.txid ∈ c.allTxids := by
  induction c generalizing L out with
  | nil =>
    obtain rfl := Option.some.inj hL
    simp at ho
  | cons b c ih =>
    obtain ⟨L₀,h₀,hb⟩ := Option.bind_eq_some_iff.mp hL
    unfold Utxos.applyBlock at hb
    simp only [allTxids,List.flatMap_cons,List.mem_append]
    cases htx : b.txdata with
    | nil => rw [htx] at hb; cases hb
    | cons coinbase txs =>
      rw [htx] at hb
      rcases foldlM_applyTx_outputs hb ho with ⟨out',ho'⟩ | hm
      · rw [Utxos.get?_add] at ho'
        split at ho'
        · rename_i he
          exact .inl (by simp [he])
        · exact .inr (ih h₀ out' ho')
      · exact .inl (List.mem_cons_of_mem _ hm)

theorem Grown.backed (hg : Grown h UtxoValid stale D c t) (hc : c.Valid UtxoValid) :
    ChainBacked h c t := by
  induction hg with
  | @base c t hb =>
    have hempty := hb.bare.active.eq fresh_utxoValid
    obtain ⟨L,hL⟩ : ∃ L, c.utxos = some L := by
      cases c with
      | nil => exact ⟨_,rfl⟩
      | cons b c => exact hc.1.spends
    refine ⟨L,hL,?_⟩
    rw [hempty]
    exact backed_empty (fun x => txids_subset_allTxids c) (utxos_outputs hL)
  | connect hg hv ha hs hl ih =>
    have hgw := hg.wf.1
    obtain ⟨-,hend,-⟩ := ha.steps hgw hv (ih hc.2)
      (fun hlt => hg.active_empty fresh_utxoValid (by omega))
    rw [hl.eq fresh_utxoValid]
    exact ha.chainBacked hend

end Backed
end Bip300301Enforcer
