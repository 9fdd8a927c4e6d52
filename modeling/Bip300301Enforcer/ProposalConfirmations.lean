import Bip300301Enforcer.ReorgStep

/-! The stream that follows the validator's events and reports, for each block that is connected,
whether it confirms a sidechain proposal. -/
namespace Bip300301Enforcer
open Lib

inductive CreateSidechainProposalResponse
  | confirmed (blockHash : BlockHash) (confirmations height : ℕ) (outpoint : OutPoint)
      (prevBlockHash : BlockHash)
  | notConfirmed (blockHash : BlockHash) (height : ℕ) (prevBlockHash : BlockHash)
deriving DecidableEq

def BlockInfo.sidechainProposalOutputs (info : BlockInfo) : List (ℕ × SidechainProposal) :=
  info.events.filterMap (fun
    | .sidechainProposal vout proposal => some (vout,proposal)
    | _ => none)

def BlockInfo.proposalOutpoint (info : BlockInfo) (proposal : SidechainProposal) :
    Option OutPoint :=
  (info.sidechainProposalOutputs.find? (fun e => e.2 = proposal)).map
    (fun e => ⟨info.coinbaseTxid,e.1⟩)

abbrev Confirmations := FinMap BlockHash (ℕ × OutPoint)

namespace ProposalStream

section Stream

variable (proposal : SidechainProposal)

/-- The confirmations of a connected block: of its own proposal, else those of its parent. -/
def confirmationsOf (confirmations : Confirmations) (headerInfo : HeaderInfo)
    (blockInfo : BlockInfo) :
    Option (ℕ × OutPoint) :=
  match blockInfo.proposalOutpoint proposal with
  | some outpoint => some (1,outpoint)
  -- The parent's count is copied as it is.
  | none => confirmations.get? headerInfo.prevBlockHash

def connectBlockEvent (confirmations : Confirmations) (headerInfo : HeaderInfo)
    (blockInfo : BlockInfo) : CreateSidechainProposalResponse × Confirmations :=
  match confirmationsOf proposal confirmations headerInfo blockInfo with
  | none => (.notConfirmed headerInfo.blockHash headerInfo.height headerInfo.prevBlockHash,confirmations)
  | some (confirms,outpoint) =>
    (.confirmed headerInfo.blockHash confirms headerInfo.height outpoint headerInfo.prevBlockHash,
      confirmations.insert headerInfo.blockHash (confirms,outpoint))

/-- The responses from some point on. An error of the subscription is passed on. -/
def responses {ε : Type} (confirmations : Confirmations) :
    List (Except ε Event) → List (Except ε CreateSidechainProposalResponse)
  | [] => []
  | .ok (.connectBlock headerInfo blockInfo)::events =>
    let (response,confirmations) := connectBlockEvent proposal confirmations headerInfo blockInfo
    .ok response::responses confirmations events
  | .ok (.disconnectBlock _)::events => responses confirmations events
  | .error err::events => .error err::responses confirmations events

end Stream

end ProposalStream

/-- The responses of the stream to what the subscription yields. -/
def streamProposalConfirmations {ε : Type} (proposal : SidechainProposal)
    (events : List (Except ε Event)) : List (Except ε CreateSidechainProposalResponse) :=
  ProposalStream.responses proposal .empty events

namespace ProposalStream

/-- The output by which a connected block of the stream made the proposal. -/
def emitted (proposal : SidechainProposal) (events : List Event) (blockHash : BlockHash) :
    Option OutPoint :=
  events.findSome? (fun
    | .connectBlock headerInfo blockInfo =>
      if headerInfo.blockHash = blockHash then blockInfo.proposalOutpoint proposal else none
    | .disconnectBlock _ => none)

/-- The nearest block of a chain that made the proposal in the stream. -/
def source (proposal : SidechainProposal) (events : List Event) (chain : List HeaderInfo) :
    Option (HeaderInfo × OutPoint) :=
  chain.findSome? (fun m => (emitted proposal events m.blockHash).map (fun outpoint => (m,outpoint)))

/-- A block that the stream sees connected. -/
structure Connected where
  headerInfo : HeaderInfo
  /-- The chain below it. -/
  ancestors : List HeaderInfo
  /-- The events of the stream so far, with the block's own. -/
  events : List Event

namespace Connected

variable (proposal : SidechainProposal) (x : Connected)

/-- The nearest block, at or below the connected one, that made the proposal in the stream. -/
def source : Option (HeaderInfo × OutPoint) :=
  ProposalStream.source proposal x.events (x.headerInfo::x.ancestors)

/-- What the stream has to say of the block. -/
def trueResponse : CreateSidechainProposalResponse :=
  match x.source proposal with
  | some (m,outpoint) => .confirmed x.headerInfo.blockHash (x.headerInfo.height-m.height+1)
      x.headerInfo.height outpoint x.headerInfo.prevBlockHash
  | none => .notConfirmed x.headerInfo.blockHash x.headerInfo.height x.headerInfo.prevBlockHash

/-- What the stream says of the block: it never counts on. -/
def actualResponse : CreateSidechainProposalResponse :=
  match x.source proposal with
  | some (_,outpoint) => .confirmed x.headerInfo.blockHash 1 x.headerInfo.height outpoint
      x.headerInfo.prevBlockHash
  | none => .notConfirmed x.headerInfo.blockHash x.headerInfo.height x.headerInfo.prevBlockHash

end Connected

def connects (past : List Event) (chain : List HeaderInfo) : List Event → List Connected
  | [] => []
  | .connectBlock headerInfo blockInfo::events =>
    let past := past++[.connectBlock headerInfo blockInfo]
    ⟨headerInfo,chain,past⟩::connects past (headerInfo::chain) events
  | .disconnectBlock blockHash::events =>
    connects (past++[.disconnectBlock blockHash]) chain.tail events

/-- A block of the validator on top of a chain. What is said of a block depends on its hash. -/
structure OnTop (proposal : SidechainProposal) (start : List HeaderInfo) (past : List Event)
    (chain : List HeaderInfo) (headerInfo : HeaderInfo) (blockInfo : BlockInfo) : Prop where
  parent : headerInfo.prevBlockHash = (chain.head?.map HeaderInfo.blockHash).getD allZeros
  height : headerInfo.height = chain.length
  nonzero : headerInfo.blockHash ≠ allZeros
  atStart : ∀ m ∈ start, m.blockHash = headerInfo.blockHash → m = headerInfo
  before : ∀ m info, .connectBlock m info ∈ past → m.blockHash = headerInfo.blockHash →
    m = headerInfo ∧ info.proposalOutpoint proposal = blockInfo.proposalOutpoint proposal

/-- The events of a validator that starts on a chain: blocks are connected on top of the tip, and
the tip is disconnected. -/
def Follows (proposal : SidechainProposal) (start : List HeaderInfo) (past : List Event)
    (chain : List HeaderInfo) : List Event → Prop
  | [] => True
  | .connectBlock headerInfo blockInfo::events =>
    OnTop proposal start past chain headerInfo blockInfo ∧
      Follows proposal start (past++[.connectBlock headerInfo blockInfo]) (headerInfo::chain) events
  | .disconnectBlock blockHash::events =>
    chain.head?.map HeaderInfo.blockHash = some blockHash ∧
      Follows proposal start (past++[.disconnectBlock blockHash]) chain.tail events

/-- The heights of a chain, its tip first, go down to zero. -/
def Heights : List HeaderInfo → Prop
  | [] => True
  | headerInfo::chain => headerInfo.height = chain.length ∧ Heights chain

section Counts

variable {proposal : SidechainProposal} {start chain l : List HeaderInfo} {past events : List Event}
  {headerInfo m : HeaderInfo} {blockInfo : BlockInfo} {confirmations : Confirmations} {k : BlockHash}

theorem Heights.lt (hh : Heights chain) (hm : m ∈ chain) : m.height < chain.length := by
  induction chain with
  | nil => cases hm
  | cons e chain ih =>
    rcases List.mem_cons.mp hm with rfl | hm
    · rw [hh.1]
      exact Nat.lt_succ_self _
    · exact Nat.lt_succ_of_lt (ih hh.2 hm)

theorem emitted_connect : emitted proposal (past++[.connectBlock headerInfo blockInfo]) k =
    (emitted proposal past k).or
      (if headerInfo.blockHash = k then blockInfo.proposalOutpoint proposal else none) := by
  rw [emitted,List.findSome?_append]
  simp [emitted]

theorem emitted_disconnect :
    emitted proposal (past++[.disconnectBlock k]) = emitted proposal past := by
  funext k'
  rw [emitted,List.findSome?_append]
  simp [emitted]

theorem OnTop.emitted_own (ho : OnTop proposal start past chain headerInfo blockInfo) :
    emitted proposal (past++[.connectBlock headerInfo blockInfo]) headerInfo.blockHash =
      blockInfo.proposalOutpoint proposal := by
  rw [emitted_connect,if_pos rfl]
  cases he : emitted proposal past headerInfo.blockHash with
  | none => rfl
  | some outpoint =>
    obtain ⟨event,hevent,hsome⟩ := List.exists_of_findSome?_eq_some he
    cases event with
    | disconnectBlock => cases hsome
    | connectBlock m info =>
      dsimp only at hsome
      split at hsome
      · rename_i hm
        rw [← (ho.before m info hevent hm).2,hsome]
        rfl
      · cases hsome

/-- What holds after some events. -/
structure Inv (proposal : SidechainProposal) (start : List HeaderInfo) (past : List Event)
    (chain : List HeaderInfo) (confirmations : Confirmations) : Prop where
  heights : Heights chain
  known : ∀ m ∈ chain, m ∈ start ∨ ∃ info, .connectBlock m info ∈ past
  counted : ∀ m l, m::l <:+ chain → confirmations.get? m.blockHash =
    (source proposal past (m::l)).map (fun s => (1,s.2))
  /-- Also the entries of blocks that were disconnected come from a proposal or from the parent. -/
  entries : ∀ k v, confirmations.get? k = some v → ∃ m info, .connectBlock m info ∈ past ∧
    m.blockHash = k ∧ k ≠ allZeros ∧ (info.proposalOutpoint proposal ≠ none ∨
      confirmations.get? m.prevBlockHash ≠ none)

theorem Inv.empty (hh : Heights start) : Inv proposal start [] start .empty := by
  refine ⟨hh,fun m hm => .inl hm,fun m l _ => ?_,fun k v hv => ?_⟩
  · have hnone : source proposal [] (m::l) = none := by
      simp [source,emitted,List.findSome?_eq_none_iff]
    rw [hnone]
    rfl
  · simp at hv

theorem Inv.fresh (hi : Inv proposal start past chain confirmations)
    (ho : OnTop proposal start past chain headerInfo blockInfo) (hm : m ∈ chain) :
    m.blockHash ≠ headerInfo.blockHash := by
  intro hk
  have hlt := hi.heights.lt hm
  have heq : m = headerInfo := by
    rcases hi.known m hm with hstart | ⟨info,hpast⟩
    · exact ho.atStart m hstart hk
    · exact (ho.before m info hpast hk).1
  rw [heq,ho.height] at hlt
  exact Nat.lt_irrefl _ hlt

theorem Inv.source_below (hi : Inv proposal start past chain confirmations)
    (ho : OnTop proposal start past chain headerInfo blockInfo) (hl : l <:+ chain) :
    source proposal (past++[.connectBlock headerInfo blockInfo]) l = source proposal past l := by
  rw [source,source,← List.head?_filterMap,← List.head?_filterMap]
  refine congrArg List.head? (List.filterMap_congr (fun m hm => ?_))
  rw [emitted_connect,if_neg (Ne.symm (hi.fresh ho (hl.subset hm))),Option.or_none]

theorem Inv.parent (hi : Inv proposal start past chain confirmations)
    (ho : OnTop proposal start past chain headerInfo blockInfo) :
    confirmations.get? headerInfo.prevBlockHash =
      (source proposal past chain).map (fun s => (1,s.2)) := by
  rw [ho.parent]
  cases chain with
  | cons m l => exact hi.counted m l List.suffix_rfl
  | nil =>
    cases hz : confirmations.get? allZeros with
    | none => exact hz
    | some v =>
      obtain ⟨_,_,-,-,hne,-⟩ := hi.entries _ v hz
      exact absurd rfl hne

theorem Inv.confirmationsOf_eq (hi : Inv proposal start past chain confirmations)
    (ho : OnTop proposal start past chain headerInfo blockInfo) :
    confirmationsOf proposal confirmations headerInfo blockInfo =
      (source proposal (past++[.connectBlock headerInfo blockInfo]) (headerInfo::chain)).map
        (fun s => (1,s.2)) := by
  have hcons : source proposal (past++[.connectBlock headerInfo blockInfo]) (headerInfo::chain) =
      ((blockInfo.proposalOutpoint proposal).map (fun outpoint => (headerInfo,outpoint))).or
        (source proposal past chain) := by
    rw [← hi.source_below ho List.suffix_rfl,← ho.emitted_own,source,List.findSome?_cons]
    cases emitted proposal (past++[.connectBlock headerInfo blockInfo]) headerInfo.blockHash <;> rfl
  rw [hcons,confirmationsOf]
  cases blockInfo.proposalOutpoint proposal with
  | some outpoint => rfl
  | none => exact hi.parent ho

theorem Inv.get?_own (hi : Inv proposal start past chain confirmations)
    (ho : OnTop proposal start past chain headerInfo blockInfo)
    (hnone : confirmationsOf proposal confirmations headerInfo blockInfo = none) :
    confirmations.get? headerInfo.blockHash = none := by
  unfold confirmationsOf at hnone
  cases hown : blockInfo.proposalOutpoint proposal with
  | some outpoint => simp [hown] at hnone
  | none =>
    rw [hown] at hnone
    cases hv : confirmations.get? headerInfo.blockHash with
    | none => rfl
    | some v =>
      obtain ⟨m,info,hpast,hm,-,hor⟩ := hi.entries _ v hv
      obtain ⟨rfl,hinfo⟩ := ho.before m info hpast hm
      rcases hor with hsome | hparent
      · exact absurd (hinfo.trans hown) hsome
      · exact absurd hnone hparent

theorem Inv.get?_connect (hi : Inv proposal start past chain confirmations)
    (ho : OnTop proposal start past chain headerInfo blockInfo) :
    (connectBlockEvent proposal confirmations headerInfo blockInfo).2.get? k =
      if headerInfo.blockHash = k then confirmationsOf proposal confirmations headerInfo blockInfo
      else confirmations.get? k := by
  unfold connectBlockEvent
  cases hown : confirmationsOf proposal confirmations headerInfo blockInfo with
  | some v => exact FinMap.get?_insert _ _ _ _
  | none =>
    by_cases hk : headerInfo.blockHash = k
    · rw [if_pos hk,← hk]
      exact hi.get?_own ho hown
    · rw [if_neg hk]

theorem Inv.get?_kept (hi : Inv proposal start past chain confirmations)
    (ho : OnTop proposal start past chain headerInfo blockInfo) (hk : confirmations.get? k ≠ none) :
    (connectBlockEvent proposal confirmations headerInfo blockInfo).2.get? k ≠ none := by
  rw [hi.get?_connect ho]
  split
  · rename_i hown
    subst hown
    exact fun hnone => hk (hi.get?_own ho hnone)
  · exact hk

theorem Inv.connect (hi : Inv proposal start past chain confirmations)
    (ho : OnTop proposal start past chain headerInfo blockInfo) :
    Inv proposal start (past++[.connectBlock headerInfo blockInfo]) (headerInfo::chain)
      (connectBlockEvent proposal confirmations headerInfo blockInfo).2 where
  heights := ⟨ho.height,hi.heights⟩
  known m hm := by
    rcases List.mem_cons.mp hm with rfl | hm
    · exact .inr ⟨blockInfo,by simp⟩
    · exact (hi.known m hm).imp_right (fun ⟨info,hpast⟩ => ⟨info,List.mem_append_left _ hpast⟩)
  counted m l hl := by
    rw [hi.get?_connect ho]
    rcases List.suffix_cons_iff.mp hl with heq | hl
    · obtain ⟨rfl,rfl⟩ := List.cons.inj heq
      rw [if_pos rfl]
      exact hi.confirmationsOf_eq ho
    · have hm : m ∈ chain := hl.subset List.mem_cons_self
      rw [if_neg (Ne.symm (hi.fresh ho hm)),hi.source_below ho hl]
      exact hi.counted m l hl
  entries k v hv := by
    rw [hi.get?_connect ho] at hv
    split at hv
    · rename_i hk
      refine ⟨headerInfo,blockInfo,by simp,hk,hk ▸ ho.nonzero,?_⟩
      cases hown : blockInfo.proposalOutpoint proposal with
      | some outpoint => exact .inl (by simp)
      | none =>
        refine .inr (hi.get?_kept ho ?_)
        simp only [confirmationsOf,hown] at hv
        simp [hv]
    · obtain ⟨m,info,hpast,hm,hne,hor⟩ := hi.entries k v hv
      exact ⟨m,info,List.mem_append_left _ hpast,hm,hne,hor.imp_right (hi.get?_kept ho)⟩

theorem Inv.response (hi : Inv proposal start past chain confirmations)
    (ho : OnTop proposal start past chain headerInfo blockInfo) :
    (connectBlockEvent proposal confirmations headerInfo blockInfo).1 =
      Connected.actualResponse proposal
        ⟨headerInfo,chain,past++[.connectBlock headerInfo blockInfo]⟩ := by
  rw [connectBlockEvent,hi.confirmationsOf_eq ho,Connected.actualResponse,Connected.source]
  cases source proposal (past++[.connectBlock headerInfo blockInfo]) (headerInfo::chain) <;> rfl

theorem Inv.disconnect (hi : Inv proposal start past chain confirmations) :
    Inv proposal start (past++[.disconnectBlock k]) chain.tail confirmations where
  heights := by
    cases chain with
    | nil => exact hi.heights
    | cons m l => exact hi.heights.2
  known m hm := (hi.known m (List.mem_of_mem_tail hm)).imp_right
    (fun ⟨info,hpast⟩ => ⟨info,List.mem_append_left _ hpast⟩)
  counted m l hl := by
    rw [source,emitted_disconnect]
    exact hi.counted m l (hl.trans (List.tail_suffix chain))
  entries k v hv := by
    obtain ⟨m,info,hpast,hrest⟩ := hi.entries k v hv
    exact ⟨m,info,List.mem_append_left _ hpast,hrest⟩

theorem Inv.responses (hi : Inv proposal start past chain confirmations)
    (hf : Follows proposal start past chain events) {ε : Type} :
    ProposalStream.responses (ε := ε) proposal confirmations (events.map Except.ok) =
      (connects past chain events).map (fun x => .ok (x.actualResponse proposal)) := by
  induction events generalizing past chain confirmations with
  | nil => rfl
  | cons event events ih =>
    cases event with
    | connectBlock headerInfo blockInfo =>
      simp only [List.map_cons,ProposalStream.responses,connects,hi.response hf.1]
      rw [ih (hi.connect hf.1) hf.2]
    | disconnectBlock blockHash => exact ih hi.disconnect hf.2

theorem connects_heights (hh : Heights chain) (hf : Follows proposal start past chain events) :
    ∀ x ∈ connects past chain events, Heights (x.headerInfo::x.ancestors) := by
  induction events generalizing past chain with
  | nil => simp [connects]
  | cons event events ih =>
    cases event with
    | connectBlock headerInfo blockInfo =>
      have hchain : Heights (headerInfo::chain) := ⟨hf.1.height,hh⟩
      exact List.forall_mem_cons.mpr ⟨hchain,ih hchain hf.2⟩
    | disconnectBlock blockHash =>
      refine ih ?_ hf.2
      cases chain with
      | nil => exact hh
      | cons m l => exact hh.2

theorem Heights.eq_of_height (hh : Heights (headerInfo::chain)) (hm : m ∈ headerInfo::chain)
    (hle : headerInfo.height ≤ m.height) : m = headerInfo := by
  rcases List.mem_cons.mp hm with rfl | hm
  · rfl
  · have hlt := hh.2.lt hm
    have heq := hh.1
    omega

theorem Connected.mem_of_source {x : Connected} {outpoint : OutPoint}
    (hs : x.source proposal = some (m,outpoint)) : m ∈ x.headerInfo::x.ancestors := by
  obtain ⟨m',hm,hsome⟩ := List.exists_of_findSome?_eq_some hs
  obtain ⟨_,-,heq⟩ := Option.map_eq_some_iff.mp hsome
  exact (Prod.mk.inj heq).1 ▸ hm

theorem Connected.response_iff {x : Connected} (hh : Heights (x.headerInfo::x.ancestors)) :
    x.actualResponse proposal = x.trueResponse proposal ↔
      ∀ m outpoint, x.source proposal = some (m,outpoint) → m = x.headerInfo := by
  unfold actualResponse trueResponse
  cases hs : x.source proposal with
  | none => simp
  | some s =>
    obtain ⟨m,outpoint⟩ := s
    have hiff : 1 = x.headerInfo.height-m.height+1 ↔ m = x.headerInfo := by
      constructor
      · intro heq
        exact hh.eq_of_height (mem_of_source hs) (by omega)
      · rintro rfl
        omega
    simp only [CreateSidechainProposalResponse.confirmed.injEq,hiff,true_and,and_true,
      Option.some.injEq,Prod.mk.injEq]
    constructor
    · rintro hm _ _ ⟨rfl,-⟩
      exact hm
    · intro hall
      exact hall m outpoint ⟨rfl,rfl⟩

theorem Follows.responses_iff {ε : Type} (hf : Follows proposal start [] start events)
    (hh : Heights start) :
    streamProposalConfirmations proposal (events.map .ok) =
        (connects [] start events).map (fun x => Except.ok (ε := ε) (x.trueResponse proposal)) ↔
      ∀ x ∈ connects [] start events, ∀ m outpoint,
        x.source proposal = some (m,outpoint) → m = x.headerInfo := by
  have hheights := connects_heights hh hf
  rw [streamProposalConfirmations,(Inv.empty hh).responses hf,List.map_inj_left]
  refine forall₂_congr (fun x hx => ?_)
  rw [Except.ok.injEq]
  exact Connected.response_iff (hheights x hx)

end Counts

end ProposalStream

end Bip300301Enforcer
