import Bip300301Enforcer.Reach

/-! The transactions of an accepted chain in their order, each with the state that it met,
and the events that are stored of them. -/
namespace Bip300301Enforcer
open Lib Chain BlockHandler

/-- A transaction of a block with the states before and after it. -/
structure ReadTx where
  before : TxState
  tx : Transaction
  after : TxState

section Reads

variable [Bitcoin]

/-- What a transaction spends and creates of a slot's treasury. -/
def ReadTx.info (h : BlockHandler) (s : SidechainNumber) (st : ReadTx) : Option TxCtipsInfo :=
  slotInfo h st.before.dbs st.before.unconsolidatedCtips st.tx s

def readsFrom (f : TxState → Transaction → Res TxState) : TxState → List Transaction → List ReadTx
  | _, [] => []
  | acc, tx::rest =>
    match f acc tx with
    | .ok acc' => ⟨acc,tx,acc'⟩::readsFrom f acc' rest
    | .error _ => []

/-- The transactions of a block after its coinbase. Below the activation height none is read. -/
def BlockHandler.reads (h : BlockHandler) (D : BlockHash → Option Diff.Block) (c : Chain)
    (t : ConsensusDbs) (b : Block) (coinbase : Transaction) (txs : List Transaction) :
    List ReadTx :=
  if c.length < h.params.bip300ActivationHeight then []
  else
    match h.connectCoinbase t c.length b.header.prevBlockhash (D b.header.prevBlockhash) coinbase with
    | .ok (t₂,accepted,events,_) =>
      readsFrom (h.connectTx accepted b.header.prevBlockhash b.blockHash)
        ⟨t₂.activeSidechains,.default,[],events,[]⟩ txs
    | .error _ => []

omit [Bitcoin] in
theorem readsFrom_spec {f : TxState → Transaction → Res TxState} {txs : List Transaction}
    {acc acc' : TxState} (I : List ReadTx → TxState → Prop) (hf : txs.foldlM f acc = .ok acc')
    (init : I [] acc)
    (step : ∀ done st, I done st.before → f st.before st.tx = .ok st.after →
      I (done++[st]) st.after) : I (readsFrom f acc txs) acc' := by
  suffices hmain : ∀ done, I done acc → I (done++readsFrom f acc txs) acc' from hmain [] init
  clear init
  induction txs generalizing acc with
  | nil =>
    intro done hI
    simp only [List.foldlM_nil,Fallible.pure_ok] at hf
    subst hf
    rw [readsFrom,List.append_nil]
    exact hI
  | cons tx rest ih =>
    intro done hI
    rw [List.foldlM_cons,Fallible.bind_ok] at hf
    obtain ⟨acc₁,h₁,hf⟩ := hf
    have hrest := ih hf (done++[⟨acc,tx,acc₁⟩]) (step done ⟨acc,tx,acc₁⟩ hI h₁)
    rw [List.append_assoc,List.singleton_append] at hrest
    simp only [readsFrom,h₁]
    exact hrest

end Reads

/-- The history of an accepted chain. Diffs are stored in `D` and events in `E`. -/
inductive History [Bitcoin] (h : BlockHandler) (V : Chain → Block → Prop)
    (D : BlockHash → Option Diff.Block) (E : BlockHash → Option (List BlockEvent)) :
    Chain → ConsensusDbs → List ReadTx → Prop
  | base {t : ConsensusDbs} (base : Base False (Fresh V) [] t) : History h V D E [] t []
  | connect {c : Chain} {t t' : ConsensusDbs} {b : Block} {coinbase : Transaction}
      {txs : List Transaction} {res : ProcessedBlock} {reads : List ReadTx}
      (history : History h V D E c t reads) (valid : V c b)
      (accepted : Accepted h D c t b coinbase txs res) (stored : D b.blockHash = some res.diff)
      (events : E b.blockHash = some res.blockInfo.events)
      (like : ConsensusDbs.Like (Fresh V) t' res.dbs) :
      History h V D E (b::c) t' (reads++h.reads D c t b coinbase txs)

section History

variable [Bitcoin] {h : BlockHandler} {V : Chain → Block → Prop}
  {D D' : BlockHash → Option Diff.Block} {E E' : BlockHash → Option (List BlockEvent)} {c : Chain}
  {t t' : ConsensusDbs} {reads : List ReadTx} {dbs : Dbs}

theorem History.grown (hh : History h V D E c t reads) : Grown h V False D c t := by
  induction hh with
  | base hb => exact .base hb
  | connect hh hv ha hs he hl ih => exact .connect ih hv ha hs hl

theorem History.like (hh : History h V D E c t reads) (hl : ConsensusDbs.Like (Fresh V) t' t) :
    History h V D E c t' reads := by
  cases hh with
  | base hb => exact .base (hb.like hl)
  | connect hh hv ha hs he hlike => exact .connect hh hv ha hs he (hl.trans hlike)

/-- Only what is stored of the chain's own blocks matters. -/
theorem History.congr (hh : History h V D E c t reads)
    (hD : ∀ k, k = allZeros ∨ k ∈ c.map Block.blockHash → D' k = D k)
    (hE : ∀ k ∈ c.map Block.blockHash, E' k = E k) : History h V D' E' c t reads := by
  induction hh with
  | base hb => exact .base hb
  | @connect c t t' b coinbase txs res reads hh hv ha hs he hl ih =>
    have hrest : ∀ k, k = allZeros ∨ k ∈ c.map Block.blockHash → D' k = D k := by
      rintro k (hk | hk)
      · exact hD k (.inl hk)
      · exact hD k (.inr (List.mem_cons_of_mem _ hk))
    have hprev : D' b.header.prevBlockhash = D b.header.prevBlockhash := by
      apply hrest
      rw [ha.parent]
      cases c with
      | nil => exact .inl rfl
      | cons b' c => exact .inr (by simp [parentHash_cons])
    have hreads : h.reads D c t b coinbase txs = h.reads D' c t b coinbase txs := by
      rw [BlockHandler.reads,BlockHandler.reads,hprev]
    rw [hreads]
    refine .connect (ih hrest (fun k hk => hE k (List.mem_cons_of_mem _ hk))) hv
      ⟨ha.parent,ha.txdata,?_,ha.consolidated⟩ ?_ ?_ hl
    · rw [hprev]; exact ha.processed
    · rw [hD _ (.inr (by simp))]; exact hs
    · rw [hE _ (by simp)]; exact he

theorem History.undo {b : Block} (hh : History h V D E (b::c) t reads) {d : Diff.Block}
    (hd : D b.blockHash = some d) (hu : d.undo t = .ok t') :
    ∃ reads', History h V D E c t' reads' := by
  cases hh with
  | @connect _ t₀ _ _ coinbase txs res reads hh hv ha hs he hl =>
    obtain ⟨hw,hi⟩ := hh.grown.wf
    obtain ⟨-,hundo,-⟩ := ha.spec hw hv hi
    obtain ⟨t₁,ht₁,hl'⟩ := hundo t hl
    obtain rfl := Option.some.inj (hs.symm.trans hd)
    obtain rfl := Except.ok.inj (ht₁.symm.trans hu)
    exact ⟨reads,hh.like hl'⟩

/-- The hashes that are stored of a chain, when a block is recorded on top of it. -/
theorem History.record {b : Block} {coinbase : Transaction} {txs : List Transaction}
    {res : ProcessedBlock} {w : ℕ} {bh : BlockHashDbs} (hs : bh.Headers) (hl : bh.Linked (b::c))
    (hh : History h V bh.diff.get? bh.events.get? c t reads) (hv : V c b)
    (ha : Accepted h bh.diff.get? c t b coinbase txs res) :
    History h V (bh.recorded b.blockHash res.blockInfo res.diff w).diff.get?
      (bh.recorded b.blockHash res.blockInfo res.diff w).events.get? (b::c) res.dbs
      (reads++h.reads bh.diff.get? c t b coinbase txs) := by
  have hnotin := BlockHashDbs.linked_hash_ne hs hl
  have hdiff (k : BlockHash) (hk : k ≠ b.blockHash) :
      (bh.recorded b.blockHash res.blockInfo res.diff w).diff.get? k = bh.diff.get? k :=
    FinMap.get?_insert_ne _ _ (Ne.symm hk)
  have hprevne : b.header.prevBlockhash ≠ b.blockHash := by
    rw [ha.parent]
    cases c with
    | nil => exact Ne.symm b.header.blockHash_ne
    | cons b' c =>
      intro heq
      exact hnotin (by rw [← heq]; simp [parentHash_cons])
  have hold : History h V (bh.recorded b.blockHash res.blockInfo res.diff w).diff.get?
      (bh.recorded b.blockHash res.blockInfo res.diff w).events.get? c t reads := by
    refine hh.congr ?_ (fun k hk => FinMap.get?_insert_ne _ _ ?_)
    · rintro k (rfl | hk)
      · exact hdiff _ (Ne.symm b.header.blockHash_ne)
      · refine hdiff _ ?_
        rintro rfl
        exact hnotin hk
    · rintro rfl
      exact hnotin hk
  have hreads : h.reads bh.diff.get? c t b coinbase txs =
      h.reads (bh.recorded b.blockHash res.blockInfo res.diff w).diff.get? c t b coinbase txs := by
    rw [BlockHandler.reads,BlockHandler.reads,hdiff _ hprevne]
  rw [hreads]
  refine .connect hold hv ⟨ha.parent,ha.txdata,?_,ha.consolidated⟩ (FinMap.get?_insert_self _ _ _)
    (FinMap.get?_insert_self _ _ _) (.refl _ _)
  rw [hdiff _ hprevne]
  exact ha.processed

/-- Every state that can be reached stores the events of its active chain. -/
theorem Reach.history {stale : Prop} (hr : Reach h V stale dbs c) (hstale : ¬ stale) :
    ∃ reads, History h V dbs.blockHashes.diff.get? dbs.blockHashes.events.get? c
      dbs.toConsensusDbs reads := by
  induction hr with
  | empty => exact ⟨[],.base ⟨⟨.refl _ _,by intro id sc hsc; cases hsc⟩,fun _ => ⟨rfl,rfl⟩⟩⟩
  | header _ _ ih => exact ih
  | mempool _ ih => exact ih
  | @connect dbs dbs' c b event hr hv hh hc ih =>
    obtain ⟨reads,hist⟩ := ih
    have hs := hr.synced
    obtain ⟨n,coinbase,txs,res,hp,he,hrec⟩ := connectBlock_ok.mp hc
    have hlinked := hs.linked_cons hh hp
    obtain ⟨rfl,ha⟩ := hs.accepted hh hp he
    obtain ⟨hd,w,-,-,-,tip,rfl,-⟩ := recordBlock_ok hrec
    exact ⟨_,hist.record hs.headers hlinked hv ha⟩
  | @disconnect dbs dbs' c hash events hr hg hd ih =>
    obtain ⟨reads,hist⟩ := ih
    have hs := hr.synced
    rcases disconnectBlock_ok.mp hd with ⟨hnone,-,rfl⟩ |
      ⟨d,header,n,t,hdiff,htip,hhd,-,-,hundo,-,rfl⟩
    · rw [(FinMap.contains_false_iff _ _).mpr hnone]
      exact ⟨reads,hist⟩
    · rw [(FinMap.contains_iff _ _).mpr ⟨d,hdiff⟩,if_pos rfl]
      cases c with
      | nil =>
        rw [hg hs.tip] at hdiff
        cases hdiff
      | cons b c =>
        obtain rfl := htip b.blockHash hs.tip
        exact hist.undo hdiff hundo
  | staleDisconnect ha => exact absurd ha hstale

end History

end Bip300301Enforcer
