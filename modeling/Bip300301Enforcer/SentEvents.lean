import Bip300301Enforcer.ProposalConfirmations
import Bip300301Enforcer.BlockInfos

/-! The events that the validator sends in a run are those that the proposal stream follows. -/
namespace Bip300301Enforcer
open Lib Chain BlockHandler ProposalStream

section SentEvents

variable [Bitcoin] {h : BlockHandler} {V : Chain → Block → Prop} {dbs dbs' dbs₀ : Dbs}
  {c c' c₀ : Chain} {b : Block} {events : List Event}

/-- The steps of the validator from some state on, with the events that it sends. -/
inductive Sends (h : BlockHandler) (V : Chain → Block → Prop) (dbs₀ : Dbs) (c₀ : Chain) :
    Dbs → Chain → List Event → Prop
  | start : Sends h V dbs₀ c₀ dbs₀ c₀ []
  | header {dbs : Dbs} {c : Chain} {events : List Event} {hd : Header} {n : ℕ}
      (sends : Sends h V dbs₀ c₀ dbs c events) (fits : dbs.blockHashes.HeaderFits hd n) :
      Sends h V dbs₀ c₀ { dbs with blockHashes := dbs.blockHashes.putHeader hd n } c events
  | mempool {dbs : Dbs} {c : Chain} {events : List Event}
      {seen : Database OutPoint (SidechainNumber × ℕ)} {requests : List SeenBmmRequest}
      (sends : Sends h V dbs₀ c₀ dbs c events) :
      Sends h V dbs₀ c₀ { dbs with
        seenUnconsolidatedCtipOutputs := seen
        blockHashes := { dbs.blockHashes with seenBmmRequestTxs := requests } } c events
  | connect {dbs dbs' : Dbs} {c : Chain} {events : List Event} {b : Block} {event : Event}
      (sends : Sends h V dbs₀ c₀ dbs c events) (valid : V c b)
      (header : dbs.blockHashes.header.get? b.blockHash = some b.header)
      (connected : h.connectBlock dbs b = .ok (event,dbs')) :
      Sends h V dbs₀ c₀ dbs' (b::c) (events++[event])
  | disconnect {dbs dbs' : Dbs} {c : Chain} {events events' : List Event} {hash : BlockHash}
      (sends : Sends h V dbs₀ c₀ dbs c events)
      (guard : dbs.currentChainTip = none → dbs.blockHashes.diff.get? hash = none)
      (disconnected : disconnectBlock dbs hash = .ok (events',dbs')) :
      Sends h V dbs₀ c₀ dbs' (if dbs.blockHashes.diff.contains hash then c.tail else c)
        (events++events')

theorem Sends.reach (hr : Reach h V False dbs₀ c₀) (hs : Sends h V dbs₀ c₀ dbs c events) :
    Reach h V False dbs c := by
  induction hs with
  | start => exact hr
  | header sends fits ih => exact .header ih fits
  | mempool sends ih => exact .mempool ih
  | connect sends valid header connected ih => exact .connect ih valid header connected
  | disconnect sends guard disconnected ih => exact .disconnect ih guard disconnected

def Chain.headerInfos : Chain → List HeaderInfo
  | [] => []
  | b::c => headerInfoOf b c.length::headerInfos c

theorem Chain.length_headerInfos (c : Chain) : (Chain.headerInfos c).length = c.length := by
  induction c with
  | nil => rfl
  | cons b c ih => rw [Chain.headerInfos,List.length_cons,List.length_cons,ih]

theorem Chain.heights_headerInfos (c : Chain) : Heights (Chain.headerInfos c) := by
  induction c with
  | nil => trivial
  | cons b c ih => exact ⟨(Chain.length_headerInfos c).symm,ih⟩

theorem Chain.tip_headerInfos (c : Chain) :
    (Chain.headerInfos c).head?.map HeaderInfo.blockHash = c.tipHash := by
  cases c <;> rfl

theorem Chain.tail_headerInfos (c : Chain) :
    (Chain.headerInfos c).tail = Chain.headerInfos c.tail := by
  cases c <;> rfl

theorem Chain.mem_headerInfos {V : Chain → Block → Prop} {bh : BlockHashDbs} {m : HeaderInfo}
    (hm : m ∈ Chain.headerInfos c) (hv : c.Valid V) (hl : bh.Linked c) :
    ∃ b' c', m = headerInfoOf b' c'.length ∧ V c' b' ∧ b'.header.prevBlockhash = c'.parentHash ∧
      Chain.Valid V c' ∧ bh.Linked c' := by
  induction c with
  | nil => cases hm
  | cons b c ih =>
    rcases List.mem_cons.mp hm with rfl | hm
    · exact ⟨b,c,rfl,hv.1,hl.2.1,hv.2,hl.2.2⟩
    · exact ih hm hv.2 hl.2.2

def chainAfter (chain : List HeaderInfo) (events : List Event) : List HeaderInfo :=
  events.foldl (fun chain event => match event with
    | .connectBlock headerInfo _ => headerInfo::chain
    | .disconnectBlock _ => chain.tail) chain

omit [Bitcoin] in
theorem follows_append {proposal : SidechainProposal} {start chain : List HeaderInfo}
    {past events' : List Event} : Follows proposal start past chain (events++events') ↔
      Follows proposal start past chain events ∧
        Follows proposal start (past++events) (chainAfter chain events) events' := by
  induction events generalizing past chain with
  | nil => simp [Follows,chainAfter]
  | cons event events ih =>
    cases event <;> simp [Follows,chainAfter,ih,and_assoc,List.append_assoc]

variable {node : BlockHash → Block}

structure WasConnected (h : BlockHandler) (node : BlockHash → Block) (m : HeaderInfo)
    (info : BlockInfo) (dbs : Dbs) (c : Chain) (b : Block) : Prop where
  synced : Synced h (NodeValid node) False dbs c
  valid : NodeValid node c b
  parent : b.header.prevBlockhash = c.parentHash
  header : m = headerInfoOf b c.length
  info : InfoOf h node b.blockHash info

theorem WasConnected.unique {m m' : HeaderInfo} {info info' : BlockInfo} {b' : Block}
    (hw : WasConnected h node m info dbs c b) (hw' : WasConnected h node m' info' dbs' c' b')
    (hm : m.blockHash = m'.blockHash) : m = m' ∧ info = info' := by
  obtain ⟨hs,hv,hp,rfl,hi⟩ := hw
  obtain ⟨hs',hv',hp',rfl,hi'⟩ := hw'
  have hb : b = b' := by
    rw [← hv.2,← hv'.2]
    exact congrArg node hm
  subst hb
  have hc : c = c' := chain_unique hs.valid hs'.valid hs.linked hs'.linked (hp.symm.trans hp')
  subst hc
  exact ⟨rfl,hi.unique hi'⟩

/-- What is known of a run of the validator by its events. -/
structure Sent (h : BlockHandler) (node : BlockHash → Block) (c₀ c : Chain) (events : List Event) :
    Prop where
  follows : ∀ proposal, Follows proposal (Chain.headerInfos c₀) [] (Chain.headerInfos c₀) events
  chain : chainAfter (Chain.headerInfos c₀) events = Chain.headerInfos c
  connected : ∀ m info, .connectBlock m info ∈ events →
    ∃ dbs c b, WasConnected h node m info dbs c b

/-- The validator's events connect blocks on top of its tip and disconnect the tip. -/
theorem Sends.sent (hr : Reach h (NodeValid node) False dbs₀ c₀)
    (hs : Sends h (NodeValid node) dbs₀ c₀ dbs c events) : Sent h node c₀ c events := by
  induction hs with
  | start => exact ⟨fun _ => trivial,rfl,by simp⟩
  | header sends fits ih => exact ih
  | mempool sends ih => exact ih
  | @connect dbs dbs' c events b event sends valid header connected ih =>
    have hsync := (sends.reach hr).synced
    obtain ⟨coinbase,txs,res,ha,rfl,-,-⟩ := hsync.connected header connected
    have hown : WasConnected h node (headerInfoOf b c.length) res.blockInfo dbs c b :=
      ⟨hsync,valid,ha.parent,rfl,dbs,c,b,coinbase,txs,res,hsync,valid,rfl,ha,rfl⟩
    refine ⟨fun proposal => follows_append.mpr ⟨ih.follows proposal,⟨?_,?_,b.header.blockHash_ne,?_,?_⟩,
      trivial⟩,?_,?_⟩
    · rw [ih.chain,Chain.tip_headerInfos]
      exact ha.parent
    · rw [ih.chain,Chain.length_headerInfos]
      rfl
    · intro m hm hk
      obtain ⟨b',c',rfl,hv',hp',hvalid,hlinked⟩ :=
        Chain.mem_headerInfos hm hr.synced.valid hr.synced.linked
      obtain rfl : b' = b := by
        rw [← hv'.2,← valid.2]
        exact congrArg node hk
      rw [chain_unique hvalid hsync.valid hlinked hsync.linked (hp'.symm.trans ha.parent)]
    · intro m info hpast hk
      obtain ⟨dbs₁,c₁,b₁,hw⟩ := ih.connected m info hpast
      obtain ⟨rfl,rfl⟩ := hw.unique hown hk
      exact ⟨rfl,rfl⟩
    · rw [chainAfter,List.foldl_append]
      exact congrArg _ ih.chain
    · intro m info hm
      rcases List.mem_append.mp hm with hpast | hnew
      · exact ih.connected m info hpast
      · obtain ⟨rfl,rfl⟩ := Event.connectBlock.inj (List.mem_singleton.mp hnew)
        exact ⟨dbs,c,b,hown⟩
  | @disconnect dbs dbs' c events events' hash sends guard disconnected ih =>
    have hsync := (sends.reach hr).synced
    rcases disconnectBlock_ok.mp disconnected with ⟨hnone,rfl,rfl⟩ |
      ⟨d,hd,n,t,hdiff,htip,-,-,-,-,rfl,-⟩
    · rw [(FinMap.contains_false_iff _ _).mpr hnone,List.append_nil]
      exact ih
    · rw [(FinMap.contains_iff _ _).mpr ⟨d,hdiff⟩,if_pos rfl]
      have hhash : c.tipHash = some hash := by
        cases htip' : dbs.currentChainTip with
        | none => exact absurd (guard htip') (by simp [hdiff])
        | some tip => rw [← hsync.tip,htip',htip tip htip']
      refine ⟨fun proposal => follows_append.mpr ⟨ih.follows proposal,?_,trivial⟩,?_,?_⟩
      · rw [ih.chain,Chain.tip_headerInfos,hhash]
      · rw [chainAfter,List.foldl_append,← Chain.tail_headerInfos]
        exact congrArg List.tail ih.chain
      · intro m info hm
        rcases List.mem_append.mp hm with hpast | hnew
        · exact ih.connected m info hpast
        · cases List.mem_singleton.mp hnew

theorem Sends.follows (hr : Reach h (NodeValid node) False dbs₀ c₀)
    (hs : Sends h (NodeValid node) dbs₀ c₀ dbs c events) (proposal : SidechainProposal) :
    Heights (Chain.headerInfos c₀) ∧
      Follows proposal (Chain.headerInfos c₀) [] (Chain.headerInfos c₀) events :=
  ⟨Chain.heights_headerInfos c₀,(hs.sent hr).follows proposal⟩

end SentEvents

namespace ProposalStream

/-- Over a run of events, the stream reports the true confirmations of each connected block exactly
if no block is connected above one that made the proposal in the stream, unless it makes the
proposal itself. What the validator sends from any state it can reach is such a run. -/
theorem streamProposalConfirmations_iff [Bitcoin] {ε : Type} (proposal : SidechainProposal) :
    (∀ start events, Heights start → Follows proposal start [] start events →
      (streamProposalConfirmations proposal (events.map .ok) =
          (connects [] start events).map (fun x => Except.ok (ε := ε) (x.trueResponse proposal)) ↔
        ∀ x ∈ connects [] start events, ∀ m outpoint,
          x.source proposal = some (m,outpoint) → m = x.headerInfo)) ∧
    ∀ h node dbs₀ c₀ dbs c events, Reach h (NodeValid node) False dbs₀ c₀ →
      Sends h (NodeValid node) dbs₀ c₀ dbs c events →
      Heights (Chain.headerInfos c₀) ∧
      Follows proposal (Chain.headerInfos c₀) [] (Chain.headerInfos c₀) events ∧
      (streamProposalConfirmations proposal (events.map .ok) =
          (connects [] (Chain.headerInfos c₀) events).map
            (fun x => Except.ok (ε := ε) (x.trueResponse proposal)) ↔
        ∀ x ∈ connects [] (Chain.headerInfos c₀) events, ∀ m outpoint,
          x.source proposal = some (m,outpoint) → m = x.headerInfo) := by
  refine ⟨fun start events hh hf => hf.responses_iff hh,?_⟩
  intro h node dbs₀ c₀ dbs c events hr hs
  obtain ⟨hh,hf⟩ := hs.follows hr proposal
  exact ⟨hh,hf,hf.responses_iff hh⟩

section Sample
open Sample

namespace StreamSample

def proposal : SidechainProposal := ⟨0,[1,2,3]⟩

def headerInfo (n : ℕ) (blockHash prevBlockHash : BlockHash) : HeaderInfo :=
  ⟨blockHash,prevBlockHash,n,1,0⟩

def blockInfo (coinbaseTxid : Txid) (proposes : Bool) : BlockInfo :=
  ⟨.empty,coinbaseTxid,if proposes then [.sidechainProposal 1 proposal] else []⟩

def start : List HeaderInfo := [headerInfo 0 10 0]

def reorg : List Event :=
  [.connectBlock (headerInfo 1 11 10) (blockInfo 21 true),.disconnectBlock 11,
    .connectBlock (headerInfo 1 12 10) (blockInfo 22 true)]

def above : List Event :=
  [.connectBlock (headerInfo 1 11 10) (blockInfo 21 true),
    .connectBlock (headerInfo 2 13 11) (blockInfo 23 false)]

end StreamSample

open StreamSample

theorem streamProposalConfirmations_iff_sample :
    streamProposalConfirmations proposal (reorg.map (Except.ok (ε := Empty))) =
      (connects [] start reorg).map (fun x => Except.ok (x.trueResponse proposal)) := by
  refine ((streamProposalConfirmations_iff proposal).1 start reorg (by simp [Heights,start,headerInfo])
    ?_).mpr ?_
  · refine ⟨⟨rfl,rfl,by decide,by decide,by simp⟩,rfl,⟨rfl,rfl,by decide,by decide,?_⟩,trivial⟩
    simp [headerInfo]
  · have hown : ∀ x ∈ connects [] start reorg,
        (x.source proposal).map Prod.fst = some x.headerInfo := by decide +kernel
    intro x hx m outpoint hs
    have heq := hown x hx
    rw [hs] at heq
    exact Option.some.inj heq

/-- The block above is reported with one confirmation. It has two. -/
theorem confirmations_stay_one :
    Follows proposal start [] start above ∧
      (streamProposalConfirmations proposal (above.map (Except.ok (ε := Empty)))).map
          Except.toOption =
        [some (.confirmed 11 1 1 ⟨21,1⟩ 10),some (.confirmed 13 1 2 ⟨21,1⟩ 11)] ∧
      (connects [] start above).map (Connected.trueResponse proposal) =
        [.confirmed 11 1 1 ⟨21,1⟩ 10,.confirmed 13 2 2 ⟨21,1⟩ 11] := by
  refine ⟨⟨⟨rfl,rfl,by decide,by decide,by simp⟩,⟨rfl,rfl,by decide,by decide,?_⟩,trivial⟩,?_,?_⟩
  · simp [headerInfo]
  · decide +kernel
  · decide +kernel

end Sample

end ProposalStream

end Bip300301Enforcer
