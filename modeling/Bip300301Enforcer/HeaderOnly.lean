import Bip300301Enforcer.Batches

/-! Connecting blocks below the activation height from their stored headers, and that
nothing but the recorded coinbase txid tells it from connecting the full blocks. -/
namespace Bip300301Enforcer
open Lib Chain BlockHandler

/-- `Txid::all_zeros`. -/
def zeroTxid : Txid := 0

namespace BlockHandler

variable [Bitcoin] (h : BlockHandler)

/-- Connect a block below the activation height from its stored header. A zeroed txid
is recorded for its coinbase. -/
def connectBlockFromHeader (dbs : Dbs) (blockHash : BlockHash) : Res (Event × Dbs) := do
  let headerInfo ← dbs.blockHashes.getHeaderInfo blockHash
  ensureTipIsParent dbs headerInfo.prevBlockHash
  let (blockInfo,blockDiff) := emptyBlockInfoAndDiff zeroTxid
  recordBlock dbs headerInfo blockInfo blockDiff

/-- The blocks that are connected in one write transaction: at most `n`, and only while
they are below the activation height. The missing blocks are listed with the next one
first, that is, read from the end of the vector. -/
def preActivationBatch : ℕ → Dbs → List BlockHash → Res (List Event × List BlockHash × Dbs)
  | 0, dbs, missing => .ok ([],missing,dbs)
  | _+1, dbs, [] => .ok ([],[],dbs)
  | n+1, dbs, blockHash::missing => do
    let height ← Database.get dbs.blockHashes.height .height blockHash
    if height < h.params.bip300ActivationHeight then
      let (event,dbs) ← connectBlockFromHeader dbs blockHash
      let (events,missing,dbs) ← preActivationBatch n dbs missing
      return (event::events,missing,dbs)
    else return ([],blockHash::missing,dbs)

def preActivationBatchSize : ℕ := 10000

end BlockHandler

/-- What a stage of the sync leaves behind: its result, the database, the blocks that
are still missing and the events that were broadcast. -/
structure StageResult (α : Type) where
  result : Except SyncError α
  dbs : Dbs
  missing : List BlockHash
  events : List Event

namespace BlockHandler

variable [Bitcoin] (h : BlockHandler)

/-- Connect batches until nothing is left to connect. Whether the sync is cancelled is
read before each batch. Every batch that is committed is broadcast. -/
def preActivationLoop (cancelled : ℕ → Bool) : ℕ → ℕ → Dbs → List BlockHash → StageResult ℕ
  | 0, _, dbs, missing => ⟨.ok 0,dbs,missing,[]⟩
  | fuel+1, k, dbs, missing =>
    if cancelled k then ⟨.error .shutdown,dbs,missing,[]⟩
    else
      match h.preActivationBatch preActivationBatchSize dbs missing with
      | .error err => ⟨.error (.block err),dbs,missing,[]⟩
      | .ok ([],missing,_) => ⟨.ok 0,dbs,missing,[]⟩
      | .ok (events,missing,dbs) =>
        let r := preActivationLoop cancelled fuel (k+1) dbs missing
        ⟨r.result.map (events.length+·),r.dbs,r.missing,events++r.events⟩

/-- Connect the missing blocks below the activation height, and count them. Each round
of the loop connects a block or ends it. -/
def connectPreActivationBlocks (cancelled : ℕ → Bool) (dbs : Dbs) (missing : List BlockHash) :
    StageResult ℕ :=
  if h.params.bip300ActivationHeight = 0 then ⟨.ok 0,dbs,missing,[]⟩
  else h.preActivationLoop cancelled (missing.length+1) 0 dbs missing

def connectHeaders : Dbs → List BlockHash → Res (List Event × Dbs)
  | dbs, [] => .ok ([],dbs)
  | dbs, blockHash::hashes => do
    let (event,dbs) ← connectBlockFromHeader dbs blockHash
    let (events,dbs) ← connectHeaders dbs hashes
    return (event::events,dbs)

end BlockHandler

def Event.setTxid (txid : Txid) : Event → Event
  | .connectBlock headerInfo blockInfo =>
    .connectBlock headerInfo { blockInfo with coinbaseTxid := txid }
  | .disconnectBlock blockHash => .disconnectBlock blockHash

def Dbs.setTxids (dbs : Dbs) (m : Database BlockHash Txid) : Dbs :=
  { dbs with blockHashes := { dbs.blockHashes with coinbaseTxid := m } }

/-- Two databases are the same but for the coinbase txids of the given blocks. -/
def Dbs.AgreeOff (S : List BlockHash) (dbs dbs' : Dbs) : Prop :=
  ∃ m, dbs' = dbs.setTxids m ∧
    ∀ k, k ∉ S → m.get? k = dbs.blockHashes.coinbaseTxid.get? k

section HeaderOnly

variable [Bitcoin] {h : BlockHandler} {dbs dbs' : Dbs} {m : Database BlockHash Txid} {b : Block}
  {S : List BlockHash}

/-- The coinbase txid is recorded and not looked at. -/
theorem recordBlock_setTxids (info : HeaderInfo) (blockInfo : BlockInfo) (d : Diff.Block)
    (txid : Txid) :
    recordBlock (dbs.setTxids m) info { blockInfo with coinbaseTxid := txid } d =
      (recordBlock dbs info blockInfo d).map
        (fun r => (r.1.setTxid txid,r.2.setTxids (m.insert info.blockHash txid))) := by
  unfold recordBlock BlockHashDbs.putBlockInfo
  simp only [Dbs.setTxids]
  cases hh : dbs.blockHashes.header.get? info.blockHash with
  | none => rfl
  | some hd =>
    simp only [Fallible.require_some,Fallible.ok_bind]
    have hwork : BlockHashDbs.chainWork { dbs.blockHashes with coinbaseTxid := m } info.blockHash hd =
        dbs.blockHashes.chainWork info.blockHash hd := rfl
    rw [hwork]
    cases dbs.blockHashes.chainWork info.blockHash hd with
    | error e => rfl
    | ok w =>
      simp only [Fallible.ok_bind,pure,Except.pure]
      cases tipWork dbs.currentChainTip (dbs.blockHashes.cumulativeWork.insert info.blockHash w) with
      | error e => rfl
      | ok tw =>
        simp only [Fallible.ok_bind]
        cases Database.get (dbs.blockHashes.cumulativeWork.insert info.blockHash w) .cumulativeWork
          info.blockHash with
        | error e => rfl
        | ok w' => rfl

theorem partialConnectBlock_setTxids :
    h.partialConnectBlock (dbs.setTxids m) b =
      (h.partialConnectBlock dbs b).map (fun r => (r.1,r.2.setTxids m)) := by
  have htip : ensureTipIsParent (dbs.setTxids m) b.header.prevBlockhash =
      ensureTipIsParent dbs b.header.prevBlockhash := rfl
  unfold partialConnectBlock
  simp only [htip]
  cases ensureTipIsParent dbs b.header.prevBlockhash with
  | error e => rfl
  | ok u =>
    simp only [Fallible.ok_bind,Dbs.setTxids]
    cases Database.get dbs.blockHashes.height .height b.blockHash with
    | error e => rfl
    | ok n =>
      simp only [Fallible.ok_bind]
      cases b.txdata with
      | nil => rfl
      | cons coinbase txs =>
        simp only
        cases h.processBlock dbs.toConsensusDbs n b.header.prevBlockhash b.blockHash
          (dbs.blockHashes.diff.get? b.header.prevBlockhash) coinbase txs with
        | error e => rfl
        | ok res => rfl

/-- Connecting a block does not look at the coinbase txids. -/
theorem connectBlock_setTxids :
    h.connectBlock (dbs.setTxids m) b = (h.connectBlock dbs b).map (fun r =>
      (r.1,r.2.setTxids (m.insert b.blockHash
        ((r.2.blockHashes.coinbaseTxid.get? b.blockHash).getD zeroTxid)))) := by
  unfold connectBlock
  rw [partialConnectBlock_setTxids]
  cases hp : h.partialConnectBlock dbs b with
  | error e => rfl
  | ok r =>
    obtain ⟨info,dbs₁⟩ := r
    obtain ⟨n,coinbase,txs,res,hpa,rfl,rfl⟩ := partialConnectBlock_ok.mp hp
    simp only [Except.map,Fallible.ok_bind,finalizeConnectBlock]
    cases res.unconsolidatedCtips.byOutpoint.toList with
    | cons e l => rfl
    | nil =>
      simp only
      have hrec : recordBlock (Dbs.setTxids { dbs with toConsensusDbs := res.dbs } m) (headerInfoOf b n)
          res.blockInfo res.diff = _ :=
        recordBlock_setTxids (headerInfoOf b n) res.blockInfo res.diff res.blockInfo.coinbaseTxid
      rw [hrec]
      cases hr : recordBlock { dbs with toConsensusDbs := res.dbs } (headerInfoOf b n) res.blockInfo
          res.diff with
      | error e => rfl
      | ok r =>
        obtain ⟨event,dbs₂⟩ := r
        obtain ⟨hd,w,-,-,rfl,tip,rfl,-⟩ := recordBlock_ok hr
        have hget : ((dbs.blockHashes.recorded b.blockHash res.blockInfo res.diff w).coinbaseTxid.get?
            b.blockHash) = some res.blockInfo.coinbaseTxid := FinMap.get?_insert_self _ _ _
        have hhash : (headerInfoOf b n).blockHash = b.blockHash := rfl
        simp only [hhash,hget,Option.getD_some,Except.map,Event.setTxid]

omit [Bitcoin] in
theorem Dbs.AgreeOff.refl (S : List BlockHash) (dbs : Dbs) : dbs.AgreeOff S dbs :=
  ⟨dbs.blockHashes.coinbaseTxid,rfl,fun _ _ => rfl⟩

omit [Bitcoin] in
theorem Dbs.AgreeOff.mono {S' : List BlockHash} (ha : dbs.AgreeOff S dbs') (hS : S ⊆ S') :
    dbs.AgreeOff S' dbs' := by
  obtain ⟨m,hm,hk⟩ := ha
  exact ⟨m,hm,fun k hk' => hk k (fun hmem => hk' (hS hmem))⟩

omit [Bitcoin] in
theorem Dbs.AgreeOff.trans {dbs'' : Dbs} (ha : dbs.AgreeOff S dbs') (hb : dbs'.AgreeOff S dbs'') :
    dbs.AgreeOff S dbs'' := by
  obtain ⟨m,rfl,hk⟩ := ha
  obtain ⟨m',rfl,hk'⟩ := hb
  exact ⟨m',rfl,fun k hn => (hk' k hn).trans (hk k hn)⟩

/-- A block below the activation height whose header is stored. -/
structure Below (h : BlockHandler) (dbs : BlockHashDbs) (b : Block) : Prop where
  header : dbs.header.get? b.blockHash = some b.header
  height : ∃ n, dbs.height.get? b.blockHash = some n ∧ n < h.params.bip300ActivationHeight
  coinbase : b.txdata ≠ []

/-- Connecting a block from its header does what connecting the full block does, but for
the coinbase txid. -/
theorem connectBlockFromHeader_eq (hb : Below h dbs.blockHashes b) :
    connectBlockFromHeader dbs b.blockHash = (h.connectBlock dbs b).map (fun r =>
      (r.1.setTxid zeroTxid,
        r.2.setTxids (dbs.blockHashes.coinbaseTxid.insert b.blockHash zeroTxid))) := by
  obtain ⟨hh,⟨n,hn,hlt⟩,hne⟩ := hb
  obtain ⟨coinbase,txs,htx⟩ := List.exists_cons_of_ne_nil hne
  have hinfo : dbs.blockHashes.getHeaderInfo b.blockHash = .ok (headerInfoOf b n) := by
    have hhash : decide (b.header.blockHash = b.blockHash) = true := decide_eq_true rfl
    simp only [BlockHashDbs.getHeaderInfo,hh,Database.get,hn,hhash,Fallible.require_some,
      Fallible.ok_bind]
    rfl
  have hproc : h.processBlock dbs.toConsensusDbs n b.header.prevBlockhash b.blockHash
      (dbs.blockHashes.diff.get? b.header.prevBlockhash) coinbase txs =
      .ok ⟨dbs.toConsensusDbs,(emptyBlockInfoAndDiff coinbase.computeTxid).1,
        (emptyBlockInfoAndDiff coinbase.computeTxid).2,.default⟩ := by
    rw [processBlock,if_pos hlt]
  have hprev : (headerInfoOf b n).prevBlockHash = b.header.prevBlockhash := rfl
  unfold connectBlockFromHeader connectBlock partialConnectBlock
  simp only [hinfo,Database.get,hn,Fallible.require_some,Fallible.ok_bind,hprev,htx,hproc]
  cases ensureTipIsParent dbs b.header.prevBlockhash with
  | error e => rfl
  | ok u =>
    have hrec : recordBlock dbs (headerInfoOf b n) (emptyBlockInfoAndDiff zeroTxid).1
        (emptyBlockInfoAndDiff zeroTxid).2 = _ :=
      recordBlock_setTxids (m := dbs.blockHashes.coinbaseTxid) (headerInfoOf b n)
        (emptyBlockInfoAndDiff coinbase.computeTxid).1
        (emptyBlockInfoAndDiff coinbase.computeTxid).2 zeroTxid
    simp only [Fallible.ok_bind]
    rw [hrec]
    rfl

theorem connectBlock_tables {event : Event} (hc : h.connectBlock dbs b = .ok (event,dbs')) :
    dbs'.blockHashes.header = dbs.blockHashes.header ∧
      dbs'.blockHashes.height = dbs.blockHashes.height ∧
      ∃ txid, dbs'.blockHashes.coinbaseTxid = dbs.blockHashes.coinbaseTxid.insert b.blockHash txid := by
  obtain ⟨n,coinbase,txs,res,-,-,hr⟩ := connectBlock_ok.mp hc
  obtain ⟨hd,w,-,-,-,tip,rfl,-⟩ := recordBlock_ok hr
  exact ⟨rfl,rfl,_,rfl⟩

theorem Dbs.AgreeOff.connectBlock {event : Event} {dbs₁ : Dbs} (ha : dbs.AgreeOff S dbs')
    (hc : h.connectBlock dbs b = .ok (event,dbs₁)) :
    ∃ dbs₁', h.connectBlock dbs' b = .ok (event,dbs₁') ∧ dbs₁.AgreeOff S dbs₁' := by
  obtain ⟨m,rfl,hk⟩ := ha
  obtain ⟨-,-,txid,htxid⟩ := connectBlock_tables hc
  refine ⟨_,by rw [connectBlock_setTxids,hc]; rfl,_,rfl,fun k hkS => ?_⟩
  simp only [htxid,FinMap.get?_insert_self,Option.getD_some]
  rw [FinMap.get?_insert,FinMap.get?_insert,hk k hkS]

theorem Dbs.AgreeOff.connectBlock_error {e : Error} (ha : dbs.AgreeOff S dbs')
    (hc : h.connectBlock dbs b = .error e) : h.connectBlock dbs' b = .error e := by
  obtain ⟨m,rfl,-⟩ := ha
  rw [connectBlock_setTxids,hc]
  rfl

theorem Dbs.AgreeOff.below (ha : dbs.AgreeOff S dbs') (hb : Below h dbs.blockHashes b) :
    Below h dbs'.blockHashes b := by
  obtain ⟨m,rfl,-⟩ := ha
  exact ⟨hb.header,hb.height,hb.coinbase⟩

theorem below_connectBlock {b' : Block} {event : Event} (hc : h.connectBlock dbs b = .ok (event,dbs'))
    (hb : Below h dbs.blockHashes b') : Below h dbs'.blockHashes b' := by
  obtain ⟨hh,hn,-⟩ := connectBlock_tables hc
  exact ⟨by rw [hh]; exact hb.header,by rw [hn]; exact hb.height,hb.coinbase⟩

theorem Dbs.AgreeOff.fromHeader {event : Event} {dbs₁ : Dbs} (ha : dbs.AgreeOff S dbs')
    (hb : Below h dbs.blockHashes b) (hc : h.connectBlock dbs b = .ok (event,dbs₁)) :
    ∃ dbs₁', connectBlockFromHeader dbs' b.blockHash = .ok (event.setTxid zeroTxid,dbs₁') ∧
      dbs₁.AgreeOff (b.blockHash::S) dbs₁' := by
  obtain ⟨dbs₁',hc',ha'⟩ := ha.connectBlock hc
  have hback : dbs₁'.AgreeOff (b.blockHash::S)
      (dbs₁'.setTxids (dbs'.blockHashes.coinbaseTxid.insert b.blockHash zeroTxid)) := by
    refine ⟨_,rfl,fun k hk => ?_⟩
    obtain ⟨-,-,txid,htxid⟩ := connectBlock_tables hc'
    have hne : b.blockHash ≠ k := fun he => hk (he ▸ List.mem_cons_self ..)
    rw [htxid,FinMap.get?_insert_ne _ _ hne,FinMap.get?_insert_ne _ _ hne]
  refine ⟨_,by rw [connectBlockFromHeader_eq (ha.below hb),hc']; rfl,?_⟩
  exact (ha'.mono (List.subset_cons_self _ _)).trans hback

theorem connectHeaders_cons {k : BlockHash} {ks : List BlockHash} {event : Event}
    (hc : connectBlockFromHeader dbs k = .ok (event,dbs')) :
    connectHeaders dbs (k::ks) = (connectHeaders dbs' ks).map (fun r => (event::r.1,r.2)) := by
  rw [connectHeaders,hc]
  simp only [Fallible.ok_bind]
  cases connectHeaders dbs' ks <;> rfl

/-- Blocks that are connected from their headers, next to the full blocks. -/
theorem Dbs.AgreeOff.connectHeaders {blocks : List Block} (ha : dbs.AgreeOff S dbs')
    (hb : ∀ b ∈ blocks, Below h dbs.blockHashes b) :
    ((h.connectEach dbs blocks).result = .ok none → ∃ dbs₁',
      connectHeaders dbs' (blocks.map Block.blockHash) =
        .ok ((h.connectEach dbs blocks).events.map (Event.setTxid zeroTxid),dbs₁') ∧
      (h.connectEach dbs blocks).dbs.AgreeOff (blocks.map Block.blockHash++S) dbs₁') ∧
    (∀ r, BlockHandler.connectHeaders dbs' (blocks.map Block.blockHash) = .ok r →
      (h.connectEach dbs blocks).result = .ok none) := by
  induction blocks generalizing dbs dbs' S with
  | nil => exact ⟨fun _ => ⟨dbs',rfl,ha⟩,fun r _ => rfl⟩
  | cons b bs ih =>
    have hbelow := hb b (List.mem_cons_self ..)
    cases hc : h.connectBlock dbs b with
    | error e =>
      have hstop : (h.connectEach dbs (b::bs)).result ≠ .ok none := by
        have hone : (h.connectAndCommit dbs b).result ≠ .ok none := by
          unfold connectAndCommit
          simp only [hc]
          cases e.fatality <;> simp
        rw [connectEach,Processed.andThen_stop hone]
        exact hone
      refine ⟨fun hres => absurd hres hstop,fun r hr => ?_⟩
      have hfail : connectBlockFromHeader dbs' b.blockHash = .error e := by
        rw [connectBlockFromHeader_eq (ha.below hbelow),ha.connectBlock_error hc]
        rfl
      rw [List.map_cons,BlockHandler.connectHeaders,hfail] at hr
      cases hr
    | ok r =>
      obtain ⟨event,dbs₁⟩ := r
      obtain ⟨dbs₁',hh,ha₁⟩ := ha.fromHeader hbelow hc
      obtain ⟨ih₁,ih₂⟩ := ih ha₁ (fun b' hb' =>
        below_connectBlock hc (hb b' (List.mem_cons_of_mem _ hb')))
      have heach : h.connectEach dbs (b::bs) = ⟨(h.connectEach dbs₁ bs).result,
          (h.connectEach dbs₁ bs).dbs,event::(h.connectEach dbs₁ bs).events⟩ := by
        rw [connectEach,connectAndCommit_ok hc,Processed.andThen_none rfl]
        rfl
      rw [heach,List.map_cons]
      constructor
      · intro hres
        obtain ⟨dbs₂',hh₂,ha₂⟩ := ih₁ hres
        refine ⟨dbs₂',by rw [connectHeaders_cons hh,hh₂]; rfl,ha₂.mono ?_⟩
        intro k hk
        simp only [List.mem_append,List.mem_cons,List.cons_append] at hk ⊢
        tauto
      · intro r hr
        rw [connectHeaders_cons hh] at hr
        cases hrest : BlockHandler.connectHeaders dbs₁' (bs.map Block.blockHash) with
        | error e => rw [hrest] at hr; cases hr
        | ok r' => exact ih₂ r' hrest

/-- Batches do the same to databases that agree. -/
theorem Dbs.AgreeOff.handleBlockBatch (ha : dbs.AgreeOff S dbs') (blocks : List Block) :
    (∀ r, h.handleBlockBatch dbs blocks = .ok r → ∃ dbs₁',
      h.handleBlockBatch dbs' blocks = .ok (r.1,r.2.1,dbs₁') ∧ r.2.2.AgreeOff S dbs₁') ∧
    ∀ e, h.handleBlockBatch dbs blocks = .error e → h.handleBlockBatch dbs' blocks = .error e := by
  induction blocks generalizing dbs dbs' with
  | nil =>
    refine ⟨fun r hr => ?_,fun e he => by cases he⟩
    obtain rfl := Except.ok.inj hr
    exact ⟨dbs',rfl,ha⟩
  | cons b bs ih =>
    unfold BlockHandler.handleBlockBatch
    cases hc : h.connectBlock dbs b with
    | error e =>
      rw [ha.connectBlock_error hc]
      simp only
      cases e.fatality with
      | jfyi =>
        refine ⟨fun r hr => ?_,fun e he => by cases he⟩
        obtain rfl := Except.ok.inj hr
        exact ⟨dbs',rfl,ha⟩
      | fatal | panic => exact ⟨fun r hr => by (cases hr),fun e' he => he⟩
    | ok r₁ =>
      obtain ⟨event,dbs₁⟩ := r₁
      obtain ⟨dbs₁',hc',ha₁⟩ := ha.connectBlock hc
      obtain ⟨ih₁,ih₂⟩ := ih ha₁
      rw [hc']
      simp only
      cases hrest : h.handleBlockBatch dbs₁ bs with
      | error e =>
        rw [ih₂ e hrest]
        exact ⟨fun r hr => by (cases hr),fun e' he => he⟩
      | ok r₂ =>
        obtain ⟨dbs₂',hrest',ha₂⟩ := ih₁ r₂ hrest
        rw [hrest']
        refine ⟨fun r hr => ?_,fun e he => by (cases he)⟩
        obtain rfl := Except.ok.inj hr
        exact ⟨dbs₂',rfl,ha₂⟩

theorem Dbs.AgreeOff.handleBatches (ha : dbs.AgreeOff S dbs') (batches : List (List Block)) :
    (h.handleBatches dbs' batches).result = (h.handleBatches dbs batches).result ∧
      (h.handleBatches dbs' batches).events = (h.handleBatches dbs batches).events ∧
      (h.handleBatches dbs batches).dbs.AgreeOff S (h.handleBatches dbs' batches).dbs := by
  induction batches generalizing dbs dbs' with
  | nil => exact ⟨rfl,rfl,ha⟩
  | cons batch batches ih =>
    obtain ⟨hok,herr⟩ := ha.handleBlockBatch (h := h) batch
    unfold BlockHandler.handleBatches
    cases hb : h.handleBlockBatch dbs batch with
    | error e =>
      have hb' := herr e hb
      simp only [handleBlockBatchAndCommit,hb,hb',Processed.andThen]
      exact ⟨trivial,trivial,ha⟩
    | ok r =>
      obtain ⟨invalid,events,dbs₁⟩ := r
      obtain ⟨dbs₁',hb',ha₁⟩ := hok _ hb
      simp only [handleBlockBatchAndCommit,hb,hb']
      cases invalid with
      | some i => exact ⟨rfl,rfl,ha₁⟩
      | none =>
        rw [Processed.andThen_none rfl,Processed.andThen_none rfl]
        obtain ⟨h₁,h₂,h₃⟩ := ih ha₁
        exact ⟨h₁,by rw [h₂],h₃⟩

theorem connectHeaders_append {ks ks' : List BlockHash} :
    connectHeaders dbs (ks++ks') = (do
      let r ← connectHeaders dbs ks
      let r' ← connectHeaders r.2 ks'
      return (r.1++r'.1,r'.2)) := by
  induction ks generalizing dbs with
  | nil =>
    simp only [List.nil_append,connectHeaders,Fallible.ok_bind]
    cases connectHeaders dbs ks' <;> rfl
  | cons k ks ih =>
    cases hc : connectBlockFromHeader dbs k with
    | error e =>
      simp only [List.cons_append,connectHeaders,hc,Fallible.error_bind]
    | ok r =>
      obtain ⟨event,dbs₁⟩ := r
      rw [List.cons_append,connectHeaders_cons hc,connectHeaders_cons hc,ih]
      cases connectHeaders dbs₁ ks with
      | error e => rfl
      | ok r =>
        simp only [Except.map,Fallible.ok_bind]
        cases connectHeaders r.2 ks' <;> rfl

/-- The block after the last one below the activation height, if there is one. -/
def AtLeast (h : BlockHandler) (dbs : BlockHashDbs) (rest : List BlockHash) : Prop :=
  ∀ k ∈ rest.head?, ∃ n, dbs.height.get? k = some n ∧ h.params.bip300ActivationHeight ≤ n

theorem connectBlockFromHeader_tables {event : Event} {k : BlockHash}
    (hc : connectBlockFromHeader dbs k = .ok (event,dbs')) :
    dbs'.blockHashes.header = dbs.blockHashes.header ∧
      dbs'.blockHashes.height = dbs.blockHashes.height := by
  obtain ⟨info,-,hc⟩ := Fallible.bind_ok.mp hc
  obtain ⟨_,-,hc⟩ := Fallible.bind_ok.mp hc
  obtain ⟨hd,w,-,-,-,tip,rfl,-⟩ := recordBlock_ok hc
  exact ⟨rfl,rfl⟩

/-- A batch connects the next blocks below the activation height, at most `n` of them. -/
theorem preActivationBatch_eq {blocks : List Block} {rest : List BlockHash} (n : ℕ)
    (hb : ∀ b ∈ blocks, Below h dbs.blockHashes b) (hrest : AtLeast h dbs.blockHashes rest) :
    h.preActivationBatch n dbs (blocks.map Block.blockHash++rest) =
      (connectHeaders dbs ((blocks.take n).map Block.blockHash)).map
        (fun r => (r.1,(blocks.drop n).map Block.blockHash++rest,r.2)) := by
  induction n generalizing dbs blocks with
  | zero => rfl
  | succ n ih =>
    cases blocks with
    | nil =>
      cases rest with
      | nil => rfl
      | cons k rest =>
        obtain ⟨m,hm,hle⟩ := hrest k rfl
        simp only [List.map_nil,List.nil_append,preActivationBatch,Database.get,hm,
          Fallible.require_some,Fallible.ok_bind]
        rw [if_neg (by omega)]
        rfl
    | cons b bs =>
      obtain ⟨m,hm,hlt⟩ := (hb b (List.mem_cons_self ..)).height
      simp only [List.map_cons,List.cons_append,preActivationBatch,Database.get,hm,
        Fallible.require_some,Fallible.ok_bind,List.take_succ_cons,List.drop_succ_cons]
      rw [if_pos hlt]
      cases hc : connectBlockFromHeader dbs b.blockHash with
      | error e =>
        rw [connectHeaders,hc]
        rfl
      | ok r =>
        obtain ⟨event,dbs₁⟩ := r
        obtain ⟨hh,hn⟩ := connectBlockFromHeader_tables hc
        simp only [Fallible.ok_bind]
        rw [connectHeaders_cons hc,ih (fun b' hb' => ?_) (fun k hk => ?_)]
        · cases connectHeaders dbs₁ ((bs.take n).map Block.blockHash) <;> rfl
        · have hbelow := hb b' (List.mem_cons_of_mem _ hb')
          exact ⟨by rw [hh]; exact hbelow.header,by rw [hn]; exact hbelow.height,hbelow.coinbase⟩
        · rw [hn]
          exact hrest k hk

theorem connectHeaders_tables {ks : List BlockHash} {events : List Event}
    (hc : connectHeaders dbs ks = .ok (events,dbs')) :
    dbs'.blockHashes.header = dbs.blockHashes.header ∧
      dbs'.blockHashes.height = dbs.blockHashes.height := by
  induction ks generalizing dbs events with
  | nil =>
    obtain ⟨rfl,rfl⟩ := Prod.mk.inj (Except.ok.inj hc)
    exact ⟨rfl,rfl⟩
  | cons k ks ih =>
    obtain ⟨⟨event,dbs₁⟩,hone,hc⟩ := Fallible.bind_ok.mp hc
    obtain ⟨⟨events',dbs₂⟩,hrest,he⟩ := Fallible.bind_ok.mp hc
    obtain ⟨rfl,rfl⟩ := Prod.mk.inj ((Fallible.pure_ok _ _).mp he)
    obtain ⟨h₁,h₂⟩ := connectBlockFromHeader_tables hone
    obtain ⟨h₃,h₄⟩ := ih hrest
    exact ⟨h₃.trans h₁,h₄.trans h₂⟩

theorem connectHeaders_length {ks : List BlockHash} {r : List Event × Dbs}
    (hc : connectHeaders dbs ks = .ok r) : r.1.length = ks.length := by
  induction ks generalizing dbs r with
  | nil =>
    obtain rfl := Except.ok.inj hc
    rfl
  | cons k ks ih =>
    obtain ⟨⟨event,dbs₁⟩,-,hc⟩ := Fallible.bind_ok.mp hc
    obtain ⟨⟨events',dbs₂⟩,hrest,he⟩ := Fallible.bind_ok.mp hc
    obtain rfl := (Fallible.pure_ok _ _).mp he
    exact congrArg (·+1) (ih hrest)

/-- What the stage has done when it stops: it has connected a part of the blocks below
the activation height, and all of them unless it was cancelled. -/
structure PreActivationDone (cancelled : ℕ → Bool) (dbs : Dbs) (blocks : List Block)
    (rest : List BlockHash) (r : StageResult ℕ) (done todo : List Block) : Prop where
  split : blocks = done++todo
  connected : connectHeaders dbs (done.map Block.blockHash) = .ok (r.events,r.dbs)
  missing : r.missing = todo.map Block.blockHash++rest
  result : (todo = [] ∧ r.result = .ok done.length) ∨
    (r.result = .error .shutdown ∧ ∃ k, cancelled k = true)

theorem preActivationLoop_done {cancelled : ℕ → Bool} {blocks : List Block} {rest : List BlockHash}
    {fuel k : ℕ} {r : List Event × Dbs} (hfuel : blocks.length < fuel)
    (hb : ∀ b ∈ blocks, Below h dbs.blockHashes b) (hrest : AtLeast h dbs.blockHashes rest)
    (hc : connectHeaders dbs (blocks.map Block.blockHash) = .ok r) :
    ∃ done todo, PreActivationDone cancelled dbs blocks rest
      (h.preActivationLoop cancelled fuel k dbs (blocks.map Block.blockHash++rest)) done todo := by
  induction fuel generalizing dbs blocks k r with
  | zero => omega
  | succ fuel ih =>
    unfold preActivationLoop
    by_cases hcancel : cancelled k = true
    · rw [if_pos hcancel]
      exact ⟨[],blocks,rfl,rfl,rfl,.inr ⟨rfl,k,hcancel⟩⟩
    rw [if_neg hcancel]
    generalize hsize : preActivationBatchSize = size
    have hpos : 0 < size := by rw [← hsize]; decide
    have hsplit := hc
    rw [← List.take_append_drop size blocks,List.map_append,connectHeaders_append] at hsplit
    obtain ⟨⟨events,dbs₁⟩,hfirst,hlast⟩ := Fallible.bind_ok.mp hsplit
    obtain ⟨r',hlast,-⟩ := Fallible.bind_ok.mp hlast
    rw [preActivationBatch_eq size hb hrest,hfirst]
    cases blocks with
    | nil =>
      simp only [List.take_nil,List.map_nil,connectHeaders] at hfirst
      obtain ⟨rfl,rfl⟩ := Prod.mk.inj (Except.ok.inj hfirst)
      simp only [List.drop_nil]
      exact ⟨[],[],rfl,rfl,rfl,.inl ⟨rfl,rfl⟩⟩
    | cons b bs =>
      obtain ⟨size,rfl⟩ := Nat.exists_eq_succ_of_ne_zero (Nat.pos_iff_ne_zero.mp hpos)
      rw [List.take_succ_cons,List.map_cons] at hfirst
      obtain ⟨⟨event,dbs₀⟩,hone,hfirst'⟩ := Fallible.bind_ok.mp hfirst
      obtain ⟨⟨events',dbs₁'⟩,htake,he⟩ := Fallible.bind_ok.mp hfirst'
      obtain ⟨rfl,rfl⟩ := Prod.mk.inj ((Fallible.pure_ok _ _).mp he)
      simp only [Except.map]
      have htables : dbs₁'.blockHashes.header = dbs.blockHashes.header ∧
          dbs₁'.blockHashes.height = dbs.blockHashes.height := connectHeaders_tables hfirst
      obtain ⟨done,todo,hd⟩ := @ih dbs₁' ((b::bs).drop (size+1)) (k+1) r' (by
          rw [List.length_drop]
          simp only [List.length_cons] at hfuel ⊢
          omega)
        (fun b' hb' => by
          have hbelow := hb b' (List.mem_of_mem_drop hb')
          exact ⟨by rw [htables.1]; exact hbelow.header,by rw [htables.2]; exact hbelow.height,
            hbelow.coinbase⟩)
        (fun k hk => by rw [htables.2]; exact hrest k hk) hlast
      refine ⟨(b::bs).take (size+1)++done,todo,?_,?_,hd.missing,?_⟩
      · rw [List.append_assoc,← hd.split,List.take_append_drop]
      · rw [List.map_append,connectHeaders_append,List.take_succ_cons,List.map_cons,hfirst,
          Fallible.ok_bind,hd.connected]
        rfl
      · rcases hd.result with ⟨htodo,hres⟩ | ⟨hres,hk⟩
        · refine .inl ⟨htodo,?_⟩
          have hlen : (event::events').length = ((b::bs).take (size+1)).length := by
            have hlen := connectHeaders_length hfirst
            rwa [← List.map_cons,List.length_map,← List.take_succ_cons] at hlen
          rw [hres,List.length_append,← hlen]
        · exact .inr ⟨by simp only [hres],hk⟩

theorem handleBatches_append {batches batches' : List (List Block)} :
    h.handleBatches dbs (batches++batches') =
      (h.handleBatches dbs batches).andThen (fun dbs => h.handleBatches dbs batches') := by
  induction batches generalizing dbs with
  | nil =>
    rw [handleBatches,Processed.andThen_none rfl]
    rfl
  | cons batch batches ih =>
    simp only [List.cons_append,handleBatches,Processed.andThen_assoc,ih]

/-- In every database, blocks below the activation height can be connected from their
headers exactly if they can be connected in full. The databases and the events then agree
but for the coinbase txids of these blocks, and so they do after any further blocks in
any batches. The stage that connects them leaves the blocks from the activation height
on, and those that it did not get to when it was cancelled. -/
theorem headerOnly_agrees (h : BlockHandler) (dbs : Dbs) (pre : List Block)
    (hb : ∀ b ∈ pre, Below h dbs.blockHashes b) :
    (∀ b ∈ pre, connectBlockFromHeader dbs b.blockHash = (h.connectBlock dbs b).map (fun r =>
      (r.1.setTxid zeroTxid,
        r.2.setTxids (dbs.blockHashes.coinbaseTxid.insert b.blockHash zeroTxid)))) ∧
    ((∃ r, connectHeaders dbs (pre.map Block.blockHash) = .ok r) ↔
      (h.connectEach dbs pre).result = .ok none) ∧
    (∀ events dbs', connectHeaders dbs (pre.map Block.blockHash) = .ok (events,dbs') →
      events = (h.connectEach dbs pre).events.map (Event.setTxid zeroTxid) ∧
      (h.connectEach dbs pre).dbs.AgreeOff (pre.map Block.blockHash) dbs' ∧
      ∀ preBatches batches, preBatches.flatten = pre →
        (h.handleBatches dbs (preBatches++batches)).result = (h.handleBatches dbs' batches).result ∧
        (h.handleBatches dbs (preBatches++batches)).events =
          (h.connectEach dbs pre).events++(h.handleBatches dbs' batches).events ∧
        (h.handleBatches dbs (preBatches++batches)).dbs.AgreeOff (pre.map Block.blockHash)
          (h.handleBatches dbs' batches).dbs) ∧
    ∀ cancelled rest, (h.connectEach dbs pre).result = .ok none → AtLeast h dbs.blockHashes rest →
      ∃ done todo, PreActivationDone cancelled dbs pre rest
        (h.connectPreActivationBlocks cancelled dbs (pre.map Block.blockHash++rest)) done todo := by
  obtain ⟨hto,hfrom⟩ := (Dbs.AgreeOff.refl [] dbs).connectHeaders hb
  refine ⟨fun b hmem => connectBlockFromHeader_eq (hb b hmem),⟨fun ⟨r,hr⟩ => hfrom r hr,?_⟩,?_,?_⟩
  · intro hres
    obtain ⟨dbs',hc,-⟩ := hto hres
    exact ⟨_,hc⟩
  · intro events dbs' hc
    have hres := hfrom _ hc
    obtain ⟨dbs'',hc',ha⟩ := hto hres
    obtain ⟨rfl,rfl⟩ := Prod.mk.inj (Except.ok.inj (hc.symm.trans hc'))
    rw [List.append_nil] at ha
    refine ⟨rfl,ha,?_⟩
    rintro preBatches batches rfl
    obtain ⟨h₁,h₂,h₃⟩ := ha.handleBatches (h := h) batches
    rw [handleBatches_append,handleBatches_eq hres,Processed.andThen_none hres]
    exact ⟨h₁.symm,by rw [h₂],h₃⟩
  · intro cancelled rest hres hrest
    obtain ⟨dbs',hc,-⟩ := hto hres
    unfold connectPreActivationBlocks
    by_cases hzero : h.params.bip300ActivationHeight = 0
    · rw [if_pos hzero]
      have hnil : pre = [] := by
        refine List.eq_nil_iff_forall_not_mem.mpr (fun b hmem => ?_)
        obtain ⟨n,-,hlt⟩ := (hb b hmem).height
        omega
      subst hnil
      exact ⟨[],[],rfl,rfl,rfl,.inl ⟨rfl,rfl⟩⟩
    · rw [if_neg hzero]
      refine preActivationLoop_done ?_ hb hrest hc
      simp only [List.length_append,List.length_map]
      omega

end HeaderOnly

section Sample

open Sample

namespace HeaderOnlySample

def handler : BlockHandler := .new { NetworkParams.new .bitcoin .regtest with bip300ActivationHeight := 2 }

def blocks : List Block := blocksOn allZeros 0 [([],[]),([],[]),([m1Script 0 [1,2,3]],[])]

def dbs : Dbs :=
  (Call.runAll handler UtxoValid (blocks.zipIdx.map (fun e => .header e.1.header e.2))).1

instance (b : Block) : Decidable (Below handler dbs.blockHashes b) :=
  decidable_of_iff (dbs.blockHashes.header.get? b.blockHash = some b.header ∧
    (∃ n ∈ dbs.blockHashes.height.get? b.blockHash, n < handler.params.bip300ActivationHeight) ∧
    b.txdata ≠ [])
    ⟨fun ⟨h₁,h₂,h₃⟩ => ⟨h₁,h₂,h₃⟩,fun ⟨h₁,h₂,h₃⟩ => ⟨h₁,h₂,h₃⟩⟩

end HeaderOnlySample

open HeaderOnlySample

theorem headerOnly_agrees_sample :
    ∃ events dbs', connectHeaders dbs ((blocks.take 2).map Block.blockHash) = .ok (events,dbs') ∧
      (handler.handleBatches dbs ([blocks.take 2]++[blocks.drop 2])).dbs.AgreeOff
        ((blocks.take 2).map Block.blockHash) (handler.handleBatches dbs' [blocks.drop 2]).dbs ∧
      (handler.handleBatches dbs' [blocks.drop 2]).events.length = 1 := by
  have hb : ∀ b ∈ blocks.take 2, Below handler dbs.blockHashes b := by decide +kernel
  obtain ⟨-,hiff,hmix,-⟩ := headerOnly_agrees handler dbs (blocks.take 2) hb
  obtain ⟨⟨events,dbs'⟩,hc⟩ := hiff.mpr (by decide +kernel)
  obtain ⟨-,-,hall⟩ := hmix events dbs' hc
  obtain ⟨-,-,ha⟩ := hall [blocks.take 2] [blocks.drop 2] (by simp)
  refine ⟨events,dbs',hc,ha,?_⟩
  have hlen : (connectHeaders dbs ((blocks.take 2).map Block.blockHash)).toOption.map
      (fun r => (handler.handleBatches r.2 [blocks.drop 2]).events.length) = some 1 := by
    decide +kernel
  rw [hc] at hlen
  exact Option.some.inj hlen

end Sample

end Bip300301Enforcer
