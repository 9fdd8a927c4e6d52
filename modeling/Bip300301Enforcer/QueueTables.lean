import Bip300301Enforcer.PolicyQueue

/-! The queues that the tables of the block producer stand for, and what one use of the tables
does to them. -/
namespace Bip300301Enforcer
open Lib Chain Marks BlockHandler

namespace Dbs

/-- The last that the active chain says above a height. -/
def readAbove {β : Type} (dbs : Dbs) (test : BlockEvent → Option β) (since : Option ℕ) : Option β :=
  dbs.activeChain.findSome? (fun k =>
    if queuedBelow since (dbs.blockHashes.heightAt k) then
      ((dbs.blockHashes.eventsAt k).filterMap test).getLast?
    else none)

/-- Whether the active chain proposes a sidechain. -/
def minedAbove [Bitcoin] (dbs : Dbs) (id : SidechainProposalId) : Option ℕ → Option Unit :=
  dbs.readAbove (fun
    | .sidechainProposal _ proposal => if proposal.computeId = id then some () else none
    | _ => none)

def settledAbove (dbs : Dbs) (id : BundleId) : Option ℕ → Option Bool :=
  dbs.readAbove (fun
    | .withdrawalBundle event =>
      if (event.sidechainId,event.m6id) = id then event.kind.paidOut else none
    | _ => none)

end Dbs

/-- A change of the chain, a restart, or a use of the tables. -/
inductive QueueCall
  | chain (call : Call)
  | startCursor
  | getOurSidechainProposals
  | getBundleProposals
  | proposeSidechain (proposal : SidechainProposal)
  | putWithdrawalBundle (s : SidechainNumber) (blindedM6 : BlindedM6)

namespace QueueCall

def isStale : QueueCall → Bool
  | .chain call => call.isStale
  | _ => false

/-- Whether the call brings the marks in line. -/
def Reconciles : QueueCall → Prop
  | .chain _ => False
  | .startCursor => False
  | _ => True

end QueueCall

inductive QueueReply
  | nothing
  | sidechainProposals (l : List SidechainProposal)
  | bundleProposals (m : FinMap SidechainNumber (List (M6id × BlindedM6)))
  | queued
  | failed (e : QueueError)
  | notStarted (e : Error)

/-- What the tables are for: the sidechains and the bundles that are queued, and whether there
was a tip before. -/
structure PolicyQueue where
  started : Bool
  proposals : Queue SidechainProposalId (List UInt8)
  bundles : Queue BundleId BlindedM6

namespace PolicyQueue

variable [Bitcoin]

/-- What a call has to return. Exactly what waits is read, a sidechain that waits is not queued
again, and a bundle that the chain paid out is refused. -/
def Answers (q : PolicyQueue) (dbs : Dbs) : QueueCall → QueueReply → Prop
  | .chain _, r => r = .nothing
  | .startCursor, r => r = .nothing
  | .getOurSidechainProposals, r => ∃ l, r = .sidechainProposals l ∧
      (l.map SidechainProposal.computeId).Nodup ∧
      ∀ p, p ∈ l ↔ p.computeId ∈ q.proposals.waiting dbs.minedAbove ∧
        (q.proposals p.computeId).map Queued.item = some p.description
  | .getBundleProposals, r => ∃ m, r = .bundleProposals m ∧ ∀ s,
      (((m.get? s).getD []).map Prod.fst).Nodup ∧
      ∀ m6id b, (m6id,b) ∈ (m.get? s).getD [] ↔ (s,m6id) ∈ q.bundles.waiting dbs.settledAbove ∧
        (q.bundles (s,m6id)).map Queued.item = some b
  | .proposeSidechain p, r => r =
      if p.computeId ∈ q.proposals.waiting dbs.minedAbove then .failed .constraint else .queued
  | .putWithdrawalBundle s b, r => r =
      if q.bundles.verdict dbs.settledAbove (s,b.computeM6id) = some true then
        .failed (.alreadyPaidOut b.computeM6id)
      else .queued

/-- What a call does. What is queued has to be mined or settled above the tip. -/
def next (q : PolicyQueue) (dbs : Dbs) : QueueCall → PolicyQueue
  | .chain _ => q
  | .startCursor =>
    match q.started, dbs.tipHeight with
    | false, some n => ⟨true,q.proposals.start n,q.bundles.start n⟩
    | _, _ => q
  | .getOurSidechainProposals => { q with started := dbs.tipHeight.isSome }
  | .getBundleProposals => { q with started := dbs.tipHeight.isSome }
  | .proposeSidechain p =>
    if p.computeId ∈ q.proposals.waiting dbs.minedAbove then q
    else ⟨dbs.tipHeight.isSome,q.proposals.put p.computeId p.description dbs.tipHeight,q.bundles⟩
  | .putWithdrawalBundle s b =>
    if q.bundles.verdict dbs.settledAbove (s,b.computeM6id) = some true then q
    else ⟨dbs.tipHeight.isSome,q.proposals,q.bundles.put (s,b.computeM6id) b dbs.tipHeight⟩

variable (h : BlockHandler) (node : BlockHash → Block)

def step (t : (Dbs × Chain) × PolicyQueue) (call : QueueCall) : (Dbs × Chain) × PolicyQueue :=
  (match call with
    | .chain call => call.run h (NodeValid node) t.1
    | _ => t.1,
   t.2.next t.1.1 call)

def run (q : PolicyQueue) (calls : List QueueCall) : (Dbs × Chain) × PolicyQueue :=
  calls.foldl (step h node) ((.empty,[]),q)

end PolicyQueue

/-- The queues that the tables hold. -/
def QueueDb.queue (db : QueueDb) : PolicyQueue where
  started := db.policyTip.isSome
  proposals := .ofRows (fun e => e.1.id) (fun e => ⟨e.2,e.1.queuedAt⟩) db.sidechainProposals
  bundles := .ofRows (fun e => e.1.id) (fun e => ⟨e.2,e.1.queuedAt⟩) db.bundleProposals

section Marks

variable {h : BlockHandler} {node : BlockHash → Block} {dbs : Dbs} {c : Chain} {db : QueueDb}

theorem getLast?_filterMap_unit {α : Type} (test : α → Option Unit) (l : List α) :
    (l.filterMap test).getLast? = if l.any (fun x => (test x).isSome) then some () else none := by
  induction l with
  | nil => rfl
  | cons x l ih =>
    cases hx : test x with
    | none => simpa [List.filterMap_cons,hx] using ih
    | some u => rw [List.filterMap_cons,hx,List.getLast?_cons,List.any_cons,hx]; rfl

variable [Bitcoin]

theorem minedAbove_row (row : SidechainProposalRow) : dbs.minedAbove row.id row.queuedAt =
    (newest (row.hit dbs.blockHashes) dbs.activeChain).map Prod.snd := by
  rw [newest_map_snd,Dbs.minedAbove,Dbs.readAbove]
  congr 1
  funext k
  have hany : (dbs.blockHashes.eventsAt k).any row.proposedBy = (dbs.blockHashes.eventsAt k).any
      (fun event => (match event with
        | .sidechainProposal _ proposal => if proposal.computeId = row.id then some () else none
        | _ => none : Option Unit).isSome) := by
    congr 1
    funext event
    cases event with
    | sidechainProposal vout proposal =>
      by_cases hid : proposal.computeId = ⟨row.sidechainNumber,row.dataHash⟩ <;>
        simp [SidechainProposalRow.proposedBy,SidechainProposalRow.id,hid]
    | _ => rfl
  rw [SidechainProposalRow.hit,getLast?_filterMap_unit,hany]
  cases queuedBelow row.queuedAt (dbs.blockHashes.heightAt k) <;> simp

omit [Bitcoin] in
theorem settledAbove_row (row : BundleProposalRow) : dbs.settledAbove row.id row.queuedAt =
    (newest (row.hit dbs.blockHashes) dbs.activeChain).map Prod.snd := by
  rw [newest_map_snd,Dbs.settledAbove,Dbs.readAbove]
  congr 1
  funext k
  rw [BundleProposalRow.hit]
  congr 3
  funext event
  cases event with
  | withdrawalBundle event =>
    simp only [BundleProposalRow.settledBy,BundleProposalRow.id,Prod.mk.injEq,eq_comm]
  | _ => rfl

namespace QueueDb

/-- One row for each key, that has the data of its hash. Without a cursor nothing was queued
above a tip. -/
structure WellFormed (db : QueueDb) : Prop where
  proposalKeys : (db.sidechainProposals.map (fun e => e.1.id)).Nodup
  bundleKeys : (db.bundleProposals.map (fun e => e.1.id)).Nodup
  filed : ∀ e ∈ db.sidechainProposals, sha256d e.2 = e.1.dataHash
  untimed : db.policyTip = none → (∀ e ∈ db.sidechainProposals, e.1.queuedAt = none) ∧
    ∀ e ∈ db.bundleProposals, e.1.queuedAt = none

/-- The marks are those of the active chain. -/
structure Lined (dbs : Dbs) (db : QueueDb) : Prop where
  tip : db.policyTip = dbs.currentChainTip
  inLine : db.marks.InLine dbs.blockHashes dbs.activeChain

theorem Lined.minedIn (hl : db.Lined dbs) {e : SidechainProposalRow × List UInt8}
    (he : e ∈ db.sidechainProposals) :
    e.1.minedIn = none ↔ dbs.minedAbove e.1.id e.1.queuedAt = none := by
  rw [minedAbove_row,hl.inLine.1 e.1 (List.mem_map_of_mem he)]
  simp

theorem Lined.settledIn (hl : db.Lined dbs) {e : BundleProposalRow × BlindedM6}
    (he : e ∈ db.bundleProposals) :
    e.1.settledIn = none ↔ dbs.settledAbove e.1.id e.1.queuedAt = none := by
  rw [settledAbove_row,(hl.inLine.2 e.1 (List.mem_map_of_mem he)).1]
  simp

theorem Lined.paidOut (hl : db.Lined dbs) {e : BundleProposalRow × BlindedM6}
    (he : e ∈ db.bundleProposals) : e.1.paidOut = dbs.settledAbove e.1.id e.1.queuedAt := by
  rw [settledAbove_row,(hl.inLine.2 e.1 (List.mem_map_of_mem he)).2]

end QueueDb

/-- No block of the active chain is above its tip. -/
theorem Reach.not_above_tip (hr : Reach h (NodeValid node) False dbs c) :
    ∀ k ∈ dbs.activeChain, queuedBelow dbs.tipHeight (dbs.blockHashes.heightAt k) = false := by
  have hs := hr.synced
  have hactive : dbs.activeChain = c.map Block.blockHash := by
    rw [Dbs.activeChain,hs.tip]
    exact ancestorHeaders_tip hs.headers hs.linked
  rw [hactive]
  cases c with
  | nil => simp
  | cons b c =>
    have htip : dbs.tipHeight = some c.length := by
      have hb := hs.tip
      rw [Dbs.tipHeight,hb]
      exact BlockHashDbs.linked_height hs.headers hs.linked
    intro k hk
    obtain ⟨b',hb',rfl⟩ := List.mem_map.mp hk
    obtain ⟨l₁,l₂,hsplit⟩ := List.append_of_mem hb'
    have hrecorded := hr.recorded
    rw [hsplit] at hrecorded
    have hlen := congrArg List.length hsplit
    rw [htip,BlockHashDbs.heightAt,BlockHashDbs.linked_height hs.headers hrecorded.suffix.linked]
    simp only [List.length_cons,List.length_append] at hlen
    simp only [queuedBelow,Option.getD_some,Option.all_some]
    exact decide_eq_false (by omega)

theorem Reach.proposal_unhit (hr : Reach h (NodeValid node) False dbs c) {row : SidechainProposalRow}
    (hq : row.queuedAt = dbs.tipHeight) : newest (row.hit dbs.blockHashes) dbs.activeChain = none := by
  refine newest_eq_none.mpr (fun k hk => ?_)
  simp [SidechainProposalRow.hit,hq,hr.not_above_tip k hk]

theorem Reach.bundle_unhit (hr : Reach h (NodeValid node) False dbs c) {row : BundleProposalRow}
    (hq : row.queuedAt = dbs.tipHeight) : newest (row.hit dbs.blockHashes) dbs.activeChain = none := by
  refine newest_eq_none.mpr (fun k hk => ?_)
  simp [BundleProposalRow.hit,hq,hr.not_above_tip k hk]

end Marks

section Uses

variable {h : BlockHandler} {node : BlockHash → Block} {db : QueueDb} {dbs : Dbs} {c : Chain}

namespace QueueDb

theorem zip_fst_snd {α β γ : Type} (f : α → γ) (l : List (α × β)) :
    ((l.map Prod.fst).map f).zip (l.map Prod.snd) = l.map (fun e => (f e.1,e.2)) := by
  induction l with
  | nil => rfl
  | cons e l ih => simp only [List.map_cons,List.zip_cons_cons,ih]

variable [Bitcoin]

/-- Updating the marks changes marks only. -/
theorem setMarks_same {marks : PolicyDb} (hm : db.marks.SameRows marks) :
    (db.setMarks marks).marks = marks ∧
      (db.setMarks marks).queue = ⟨marks.policyTip.isSome,db.queue.proposals,db.queue.bundles⟩ ∧
      (db.WellFormed → marks.policyTip = db.policyTip ∨ marks.policyTip ≠ none →
        (db.setMarks marks).WellFormed) := by
  obtain ⟨⟨f,hf,hp⟩,⟨g,hg,hb⟩⟩ := hm
  have hproposals : (db.setMarks marks).sidechainProposals =
      db.sidechainProposals.map (fun e => (f e.1,e.2)) := by
    rw [setMarks,hp]
    exact zip_fst_snd f _
  have hbundles : (db.setMarks marks).bundleProposals =
      db.bundleProposals.map (fun e => (g e.1,e.2)) := by
    rw [setMarks,hb]
    exact zip_fst_snd g _
  refine ⟨?_,?_,fun hw htip => ?_⟩
  · obtain ⟨tip,proposals,bundles⟩ := marks
    simp only [QueueDb.marks,hproposals,hbundles,List.map_map,Function.comp_def] at hp hb ⊢
    rw [hp,hb]
    rfl
  · simp only [queue,hproposals,hbundles]
    rw [Queue.ofRows_map (fun e => (hf e.1).1) (fun e _ => by rw [(hf e.1).2]),
      Queue.ofRows_map (fun e => (hg e.1).1) (fun e _ => by rw [(hg e.1).2])]
    rfl
  · refine ⟨?_,?_,?_,fun hnone => ?_⟩
    · rw [hproposals,List.map_map]
      simpa only [Function.comp_def,(hf _).1] using hw.proposalKeys
    · rw [hbundles,List.map_map]
      simpa only [Function.comp_def,(hg _).1] using hw.bundleKeys
    · rw [hproposals,List.forall_mem_map]
      intro e he
      have hid := congrArg SidechainProposalId.descriptionHash (hf e.1).1
      exact (hw.filed e he).trans hid.symm
    · obtain ⟨hp',hb'⟩ := hw.untimed (by
        rcases htip with htip | htip
        · rw [← htip]; exact hnone
        · exact absurd hnone htip)
      rw [hproposals,hbundles,List.forall_mem_map,List.forall_mem_map]
      exact ⟨fun e he => (hf e.1).2.trans (hp' e he),fun e he => (hg e.1).2.trans (hb' e he)⟩

end QueueDb

variable [Bitcoin]

theorem QueueDb.Lined.atCursor (hl : db.Lined dbs) (hr : Reach h (NodeValid node) False dbs c) :
    AtCursor h node dbs.blockHashes db.marks := by
  have hs := hr.synced
  have hactive : dbs.activeChain = c.map Block.blockHash := by
    rw [Dbs.activeChain,hs.tip]
    exact ancestorHeaders_tip hs.headers hs.linked
  exact ⟨c,hl.tip.trans hs.tip,hr.recorded,hactive ▸ hl.inLine⟩

namespace QueueDb

/-- Rows that are new, or queued again, are in line with the chain. -/
theorem Lined.setProposals (hl : db.Lined dbs) (hw : db.WellFormed)
    (hr : Reach h (NodeValid node) False dbs c)
    (rows : List (SidechainProposalRow × List UInt8)) (hkeys : (rows.map (fun e => e.1.id)).Nodup)
    (hrows : ∀ e ∈ rows, e ∈ db.sidechainProposals ∨
      e.1.queuedAt = dbs.tipHeight ∧ e.1.minedIn = none ∧ sha256d e.2 = e.1.dataHash) :
    Lined dbs { db with sidechainProposals := rows } ∧
      WellFormed { db with sidechainProposals := rows } := by
  refine ⟨⟨hl.tip,?_,hl.inLine.2⟩,hkeys,hw.bundleKeys,?_,fun hnone => ⟨?_,(hw.untimed hnone).2⟩⟩
  · intro row hrow
    obtain ⟨e,he,rfl⟩ := List.mem_map.mp hrow
    rcases hrows e he with hold | ⟨hq,hm,-⟩
    · exact hl.inLine.1 e.1 (List.mem_map_of_mem hold)
    · rw [hm,hr.proposal_unhit hq]
      rfl
  · intro e he
    rcases hrows e he with hold | ⟨-,-,hf⟩
    · exact hw.filed e hold
    · exact hf
  · intro e he
    rcases hrows e he with hold | ⟨hq,-,-⟩
    · exact (hw.untimed hnone).1 e hold
    · have htip : dbs.currentChainTip = none := hl.tip.symm.trans hnone
      rw [hq,Dbs.tipHeight,htip]
      rfl

theorem Lined.setBundles (hl : db.Lined dbs) (hw : db.WellFormed)
    (hr : Reach h (NodeValid node) False dbs c)
    (rows : List (BundleProposalRow × BlindedM6)) (hkeys : (rows.map (fun e => e.1.id)).Nodup)
    (hrows : ∀ e ∈ rows, e ∈ db.bundleProposals ∨
      e.1.queuedAt = dbs.tipHeight ∧ e.1.settledIn = none ∧ e.1.paidOut = none) :
    Lined dbs { db with bundleProposals := rows } ∧
      WellFormed { db with bundleProposals := rows } := by
  refine ⟨⟨hl.tip,hl.inLine.1,?_⟩,hw.proposalKeys,hkeys,hw.filed,
    fun hnone => ⟨(hw.untimed hnone).1,?_⟩⟩
  · intro row hrow
    obtain ⟨e,he,rfl⟩ := List.mem_map.mp hrow
    rcases hrows e he with hold | ⟨hq,hm,hp⟩
    · exact hl.inLine.2 e.1 (List.mem_map_of_mem hold)
    · rw [hm,hp,hr.bundle_unhit hq]
      exact ⟨rfl,rfl⟩
  · intro e he
    rcases hrows e he with hold | ⟨hq,-,-⟩
    · exact (hw.untimed hnone).2 e hold
    · have htip : dbs.currentChainTip = none := hl.tip.symm.trans hnone
      rw [hq,Dbs.tipHeight,htip]
      rfl

theorem WellFormed.proposals_row (hw : db.WellFormed) {e : SidechainProposalRow × List UInt8}
    (he : e ∈ db.sidechainProposals) : db.queue.proposals e.1.id = some ⟨e.2,e.1.queuedAt⟩ :=
  Queue.ofRows_row hw.proposalKeys he

theorem WellFormed.bundles_row (hw : db.WellFormed) {e : BundleProposalRow × BlindedM6}
    (he : e ∈ db.bundleProposals) : db.queue.bundles e.1.id = some ⟨e.2,e.1.queuedAt⟩ :=
  Queue.ofRows_row hw.bundleKeys he

theorem Lined.mem_proposals (hl : db.Lined dbs) (hw : db.WellFormed) {id : SidechainProposalId} :
    id ∈ db.queue.proposals.waiting dbs.minedAbove ↔
      ∃ e ∈ db.sidechainProposals, e.1.id = id ∧ e.1.minedIn = none := by
  rw [queue,Queue.mem_waiting_ofRows hw.proposalKeys]
  constructor
  · rintro ⟨e,he,rfl,hread⟩
    exact ⟨e,he,rfl,(hl.minedIn he).mpr hread⟩
  · rintro ⟨e,he,rfl,hmark⟩
    exact ⟨e,he,rfl,(hl.minedIn he).mp hmark⟩

theorem Lined.mem_bundles (hl : db.Lined dbs) (hw : db.WellFormed) {id : BundleId} :
    id ∈ db.queue.bundles.waiting dbs.settledAbove ↔
      ∃ e ∈ db.bundleProposals, e.1.id = id ∧ e.1.settledIn = none := by
  rw [queue,Queue.mem_waiting_ofRows hw.bundleKeys]
  constructor
  · rintro ⟨e,he,rfl,hread⟩
    exact ⟨e,he,rfl,(hl.settledIn he).mpr hread⟩
  · rintro ⟨e,he,rfl,hmark⟩
    exact ⟨e,he,rfl,(hl.settledIn he).mp hmark⟩

/-- What is read of the queued sidechains. -/
theorem Lined.read_proposals (hl : db.Lined dbs) (hw : db.WellFormed) :
    let l := (db.sidechainProposals.filter (fun e => e.1.minedIn = none)).map
      (fun e => (⟨e.1.sidechainNumber,e.2⟩ : SidechainProposal))
    (l.map SidechainProposal.computeId).Nodup ∧ ∀ p, p ∈ l ↔
      p.computeId ∈ db.queue.proposals.waiting dbs.minedAbove ∧
        (db.queue.proposals p.computeId).map Queued.item = some p.description := by
  have hid : ∀ e ∈ db.sidechainProposals,
      SidechainProposal.computeId ⟨e.1.sidechainNumber,e.2⟩ = e.1.id := by
    intro e he
    rw [SidechainProposal.computeId,hw.filed e he]
    rfl
  refine ⟨?_,fun p => ?_⟩
  · have hmap : ((db.sidechainProposals.filter (fun e => e.1.minedIn = none)).map
        (fun e => (⟨e.1.sidechainNumber,e.2⟩ : SidechainProposal))).map SidechainProposal.computeId =
        (db.sidechainProposals.filter (fun e => e.1.minedIn = none)).map (fun e => e.1.id) := by
      rw [List.map_map]
      exact List.map_congr_left (fun e he => hid e (List.mem_of_mem_filter he))
    rw [hmap]
    exact hw.proposalKeys.sublist (List.filter_sublist.map _)
  · rw [hl.mem_proposals hw,List.mem_map]
    constructor
    · rintro ⟨e,he,rfl⟩
      obtain ⟨hmem,hmark⟩ := List.mem_filter.mp he
      refine ⟨⟨e,hmem,(hid e hmem).symm,by simpa using hmark⟩,?_⟩
      rw [hid e hmem,hw.proposals_row hmem]
      rfl
    · rintro ⟨⟨e,hmem,hkey,hmark⟩,hitem⟩
      rw [← hkey,hw.proposals_row hmem] at hitem
      refine ⟨e,List.mem_filter.mpr ⟨hmem,by simpa using hmark⟩,?_⟩
      obtain ⟨n,description⟩ := p
      have hn : e.1.sidechainNumber = n := congrArg SidechainProposalId.sidechainNumber hkey
      have hd : e.2 = description := Option.some.inj hitem
      rw [hn,hd]

omit [Bitcoin] in
theorem foldl_pushBundle (rows : List (BundleProposalRow × BlindedM6))
    (m : FinMap SidechainNumber (List (M6id × BlindedM6))) (s : SidechainNumber) :
    ((rows.foldl pushBundle m).get? s).getD [] = (m.get? s).getD []++
      (rows.filter (fun e => e.1.sidechainNumber = s)).map (fun e => (e.1.bundleHash,e.2)) := by
  induction rows generalizing m with
  | nil => simp
  | cons e rows ih =>
    rw [List.foldl_cons,ih,pushBundle,FinMap.get?_insert]
    by_cases hs : e.1.sidechainNumber = s <;> simp [hs]

/-- What is read of the queued bundles. -/
theorem Lined.read_bundles (hl : db.Lined dbs) (hw : db.WellFormed) (s : SidechainNumber) :
    let m := (db.bundleProposals.filter (fun e => e.1.settledIn = none)).foldl pushBundle .empty
    (((m.get? s).getD []).map Prod.fst).Nodup ∧ ∀ m6id b, (m6id,b) ∈ (m.get? s).getD [] ↔
      (s,m6id) ∈ db.queue.bundles.waiting dbs.settledAbove ∧
        (db.queue.bundles (s,m6id)).map Queued.item = some b := by
  simp only [foldl_pushBundle,FinMap.get?_empty,Option.getD_none,List.nil_append]
  refine ⟨?_,fun m6id b => ?_⟩
  · have hmap : ((((db.bundleProposals.filter (fun e => e.1.settledIn = none)).filter
        (fun e => e.1.sidechainNumber = s)).map (fun e => (e.1.bundleHash,e.2))).map Prod.fst).map
          (fun m6id => (s,m6id)) = ((db.bundleProposals.filter (fun e => e.1.settledIn = none)).filter
        (fun e => e.1.sidechainNumber = s)).map (fun e => e.1.id) := by
      rw [List.map_map,List.map_map]
      refine List.map_congr_left (fun e he => ?_)
      have hs : e.1.sidechainNumber = s := by simpa using (List.mem_filter.mp he).2
      simp [BundleProposalRow.id,hs]
    refine List.Nodup.of_map (fun m6id => (s,m6id)) ?_
    rw [hmap]
    exact hw.bundleKeys.sublist ((List.filter_sublist.trans List.filter_sublist).map _)
  · rw [hl.mem_bundles hw,List.mem_map]
    constructor
    · rintro ⟨e,he,heq⟩
      obtain ⟨rfl,rfl⟩ := Prod.mk.inj heq
      obtain ⟨he,hs⟩ := List.mem_filter.mp he
      obtain ⟨hmem,hmark⟩ := List.mem_filter.mp he
      have hid : (s,e.1.bundleHash) = e.1.id := by simp [BundleProposalRow.id,of_decide_eq_true hs]
      refine ⟨⟨e,hmem,hid.symm,by simpa using hmark⟩,?_⟩
      rw [hid,hw.bundles_row hmem]
      rfl
    · rintro ⟨⟨e,hmem,hkey,hmark⟩,hitem⟩
      rw [← hkey,hw.bundles_row hmem] at hitem
      obtain ⟨hs,hm⟩ := Prod.mk.inj hkey
      have hb : e.2 = b := Option.some.inj hitem
      exact ⟨e,List.mem_filter.mpr ⟨List.mem_filter.mpr ⟨hmem,by simpa using hmark⟩,by simpa using hs⟩,
        by rw [hm,hb]⟩

/-- A mined sidechain is queued again at the tip. -/
theorem Lined.requeue_proposal (hl : db.Lined dbs) (hw : db.WellFormed)
    (hr : Reach h (NodeValid node) False dbs c) {p : SidechainProposal}
    {e : SidechainProposalRow × List UInt8} (he : e ∈ db.sidechainProposals)
    (hid : e.1.id = p.computeId) (hmark : e.1.minedIn ≠ none) :
    ∃ db', storeProposal p dbs.tipHeight db = .ok ((),db') ∧ db'.Lined dbs ∧ db'.WellFormed ∧
      db'.queue = { db.queue with
        proposals := db.queue.proposals.put p.computeId p.description dbs.tipHeight } := by
  have hone : ∀ e' ∈ db.sidechainProposals, e'.1.id = p.computeId → e' = e := fun e' he' hid' =>
    List.inj_on_of_nodup_map hw.proposalKeys he' he (hid'.trans hid.symm)
  have hany : db.sidechainProposals.any
      (fun e => e.1.id = p.computeId ∧ e.1.minedIn ≠ none) = true :=
    List.any_eq_true.mpr ⟨e,he,decide_eq_true ⟨hid,hmark⟩⟩
  let rows := db.sidechainProposals.map
    (fun e => if e.1.id = p.computeId then (e.1.requeue dbs.tipHeight,e.2) else e)
  have hrows : db.sidechainProposals.map (fun e => if e.1.id = p.computeId ∧ e.1.minedIn ≠ none then
      (e.1.requeue dbs.tipHeight,e.2) else e) = rows := by
    refine List.map_congr_left (fun e' he' => ?_)
    by_cases hid' : e'.1.id = p.computeId
    · obtain rfl := hone e' he' hid'
      simp [hid,hmark]
    · simp [hid']
  have hstored : storeProposal p dbs.tipHeight db =
      .ok ((),{ db with sidechainProposals := rows }) := by
    rw [storeProposal,← hrows]
    exact if_pos hany
  obtain ⟨hl',hw'⟩ := hl.setProposals hw hr rows (Queue.keys_move (fun _ => rfl) hw.proposalKeys) (by
    refine List.forall_mem_map.mpr (fun e' he' => ?_)
    split
    · exact .inr ⟨rfl,rfl,hw.filed e' he'⟩
    · exact .inl he')
  refine ⟨_,hstored,hl',hw',?_⟩
  have hput : Queue.ofRows (fun e => e.1.id) (fun e => ⟨e.2,e.1.queuedAt⟩) rows =
      db.queue.proposals.put p.computeId p.description dbs.tipHeight :=
    Queue.ofRows_move (fun _ => rfl) (fun _ => rfl) ⟨e,he,hid⟩
  rw [queue,hput]
  rfl

/-- A sidechain that was not queued before. -/
theorem Lined.append_proposal (hl : db.Lined dbs) (hw : db.WellFormed)
    (hr : Reach h (NodeValid node) False dbs c) {p : SidechainProposal}
    (hnew : ∀ e ∈ db.sidechainProposals, e.1.id ≠ p.computeId) :
    ∃ db', storeProposal p dbs.tipHeight db = .ok ((),db') ∧ db'.Lined dbs ∧ db'.WellFormed ∧
      db'.queue = { db.queue with
        proposals := db.queue.proposals.put p.computeId p.description dbs.tipHeight } := by
  have hmined : db.sidechainProposals.any
      (fun e => e.1.id = p.computeId ∧ e.1.minedIn ≠ none) = false :=
    List.any_eq_false.mpr (fun e he => by simp [hnew e he])
  have hany : db.sidechainProposals.any (fun e => e.1.id = p.computeId) = false :=
    List.any_eq_false.mpr (fun e he => by simp [hnew e he])
  let row : SidechainProposalRow × List UInt8 :=
    (⟨p.sidechainNumber,sha256d p.description,dbs.tipHeight,none⟩,p.description)
  have hstored : storeProposal p dbs.tipHeight db =
      .ok ((),{ db with sidechainProposals := db.sidechainProposals++[row] }) := by
    rw [storeProposal]
    simp only [hmined,hany,Bool.false_eq_true,if_false]
    rfl
  obtain ⟨hl',hw'⟩ := hl.setProposals hw hr (db.sidechainProposals++[row])
    (Queue.keys_append hw.proposalKeys hnew) (by
    intro e he
    rcases List.mem_append.mp he with he | he
    · exact .inl he
    · obtain rfl := List.mem_singleton.mp he
      exact .inr ⟨rfl,rfl,rfl⟩)
  refine ⟨_,hstored,hl',hw',?_⟩
  have hput : Queue.ofRows (fun e => e.1.id) (fun e => ⟨e.2,e.1.queuedAt⟩)
      (db.sidechainProposals++[row]) =
        db.queue.proposals.put p.computeId p.description dbs.tipHeight := Queue.ofRows_append hnew
  rw [queue,hput]
  rfl

/-- A sidechain that waits is not queued again, and all others are. -/
theorem Lined.storeProposal (hl : db.Lined dbs) (hw : db.WellFormed)
    (hr : Reach h (NodeValid node) False dbs c) (p : SidechainProposal) :
    if p.computeId ∈ db.queue.proposals.waiting dbs.minedAbove then
      storeProposal p dbs.tipHeight db = .error .constraint
    else
      ∃ db', storeProposal p dbs.tipHeight db = .ok ((),db') ∧ db'.Lined dbs ∧ db'.WellFormed ∧
        db'.queue = { db.queue with
          proposals := db.queue.proposals.put p.computeId p.description dbs.tipHeight } := by
  split
  · rename_i hwait
    obtain ⟨e,he,hid,hmark⟩ := (hl.mem_proposals hw).mp hwait
    have hmined : db.sidechainProposals.any
        (fun e => e.1.id = p.computeId ∧ e.1.minedIn ≠ none) = false := by
      refine List.any_eq_false.mpr (fun e' he' => ?_)
      rw [decide_eq_true_eq]
      rintro ⟨hid',hmark'⟩
      exact hmark' (List.inj_on_of_nodup_map hw.proposalKeys he' he (hid'.trans hid.symm) ▸ hmark)
    have hany : db.sidechainProposals.any (fun e => e.1.id = p.computeId) = true :=
      List.any_eq_true.mpr ⟨e,he,decide_eq_true hid⟩
    rw [QueueDb.storeProposal]
    simp only [hmined,hany,Bool.false_eq_true,if_false,if_true]
  · rename_i hnot
    by_cases hrow : ∃ e ∈ db.sidechainProposals, e.1.id = p.computeId
    · obtain ⟨e,he,hid⟩ := hrow
      exact hl.requeue_proposal hw hr he hid
        (fun hmark => hnot ((hl.mem_proposals hw).mpr ⟨e,he,hid,hmark⟩))
    · exact hl.append_proposal hw hr (fun e he hid => hrow ⟨e,he,hid⟩)

theorem Lined.verdict_row (hl : db.Lined dbs) (hw : db.WellFormed) {e : BundleProposalRow × BlindedM6}
    (he : e ∈ db.bundleProposals) :
    db.queue.bundles.verdict dbs.settledAbove e.1.id = e.1.paidOut := by
  rw [Queue.verdict,hw.bundles_row he,hl.paidOut he]
  rfl

/-- A bundle that was queued before is queued again at the tip. -/
theorem Lined.requeue_bundle (hl : db.Lined dbs) (hw : db.WellFormed)
    (hr : Reach h (NodeValid node) False dbs c) {s : SidechainNumber} {b : BlindedM6}
    {e : BundleProposalRow × BlindedM6}
    (hfind : db.bundleProposals.find? (fun e => e.1.id = (s,b.computeM6id)) = some e)
    (hpaid : e.1.paidOut ≠ some true) :
    ∃ db', storeBundle s b dbs.tipHeight db = .ok (b.computeM6id,db') ∧ db'.Lined dbs ∧
      db'.WellFormed ∧ db'.queue = { db.queue with
        bundles := db.queue.bundles.put (s,b.computeM6id) b dbs.tipHeight } := by
  have he := List.mem_of_find?_eq_some hfind
  have hid : e.1.id = (s,b.computeM6id) := by simpa using List.find?_some hfind
  let rows := db.bundleProposals.map
    (fun e => if e.1.id = (s,b.computeM6id) then (e.1.requeue dbs.tipHeight,e.2) else e)
  have hstored : storeBundle s b dbs.tipHeight db =
      .ok (b.computeM6id,{ db with bundleProposals := rows }) := by
    rw [storeBundle]
    simp only [hfind,if_neg hpaid]
    rfl
  obtain ⟨hl',hw'⟩ := hl.setBundles hw hr rows (Queue.keys_move (fun _ => rfl) hw.bundleKeys) (by
    refine List.forall_mem_map.mpr (fun e' he' => ?_)
    split
    · exact .inr ⟨rfl,rfl,rfl⟩
    · exact .inl he')
  refine ⟨_,hstored,hl',hw',?_⟩
  have hput : Queue.ofRows (fun e => e.1.id) (fun e => ⟨e.2,e.1.queuedAt⟩) rows =
      db.queue.bundles.put (s,b.computeM6id) b dbs.tipHeight :=
    Queue.ofRows_move (fun _ => rfl) (fun _ => rfl) ⟨e,he,hid⟩
  rw [queue,hput]
  rfl

/-- A bundle that was not queued before. -/
theorem Lined.append_bundle (hl : db.Lined dbs) (hw : db.WellFormed)
    (hr : Reach h (NodeValid node) False dbs c) {s : SidechainNumber} {b : BlindedM6}
    (hfind : db.bundleProposals.find? (fun e => e.1.id = (s,b.computeM6id)) = none) :
    ∃ db', storeBundle s b dbs.tipHeight db = .ok (b.computeM6id,db') ∧ db'.Lined dbs ∧
      db'.WellFormed ∧ db'.queue = { db.queue with
        bundles := db.queue.bundles.put (s,b.computeM6id) b dbs.tipHeight } := by
  have hnew : ∀ e ∈ db.bundleProposals, e.1.id ≠ (s,b.computeM6id) := by simpa using hfind
  let row : BundleProposalRow × BlindedM6 := (⟨s,b.computeM6id,dbs.tipHeight,none,none⟩,b)
  have hstored : storeBundle s b dbs.tipHeight db =
      .ok (b.computeM6id,{ db with bundleProposals := db.bundleProposals++[row] }) := by
    rw [storeBundle]
    simp only [hfind]
    rfl
  obtain ⟨hl',hw'⟩ := hl.setBundles hw hr (db.bundleProposals++[row])
    (Queue.keys_append hw.bundleKeys hnew) (by
    intro e he
    rcases List.mem_append.mp he with he | he
    · exact .inl he
    · obtain rfl := List.mem_singleton.mp he
      exact .inr ⟨rfl,rfl,rfl⟩)
  refine ⟨_,hstored,hl',hw',?_⟩
  have hput : Queue.ofRows (fun e => e.1.id) (fun e => ⟨e.2,e.1.queuedAt⟩)
      (db.bundleProposals++[row]) =
        db.queue.bundles.put (s,b.computeM6id) b dbs.tipHeight := Queue.ofRows_append hnew
  rw [queue,hput]
  rfl

/-- A bundle that the chain paid out is refused, and all others are queued. -/
theorem Lined.storeBundle (hl : db.Lined dbs) (hw : db.WellFormed)
    (hr : Reach h (NodeValid node) False dbs c) (s : SidechainNumber) (b : BlindedM6) :
    if db.queue.bundles.verdict dbs.settledAbove (s,b.computeM6id) = some true then
      storeBundle s b dbs.tipHeight db = .error (.alreadyPaidOut b.computeM6id)
    else
      ∃ db', storeBundle s b dbs.tipHeight db = .ok (b.computeM6id,db') ∧ db'.Lined dbs ∧
        db'.WellFormed ∧ db'.queue = { db.queue with
          bundles := db.queue.bundles.put (s,b.computeM6id) b dbs.tipHeight } := by
  cases hfind : db.bundleProposals.find? (fun e => e.1.id = (s,b.computeM6id)) with
  | none =>
    have hverdict : db.queue.bundles.verdict dbs.settledAbove (s,b.computeM6id) = none := by
      simp [Queue.verdict,queue,Queue.ofRows,hfind]
    rw [if_neg (by simp [hverdict])]
    exact hl.append_bundle hw hr hfind
  | some e =>
    have he := List.mem_of_find?_eq_some hfind
    have hid : e.1.id = (s,b.computeM6id) := by simpa using List.find?_some hfind
    rw [← hid,hl.verdict_row hw he,hid]
    split
    · rename_i hpaid
      rw [QueueDb.storeBundle]
      simp only [hfind,if_pos hpaid]
    · rename_i hpaid
      exact hl.requeue_bundle hw hr hfind hpaid

theorem unmarked (htip : db.policyTip = none) (ha : AtCursor h node dbs.blockHashes db.marks) :
    db.marks.InLine dbs.blockHashes [] := by
  obtain ⟨c₀,ht,-,hin⟩ := ha
  cases c₀ with
  | nil => exact hin
  | cons b₀ c₀ => exact absurd (htip.symm.trans ht) (by simp [tipHash])

def startedAt (db : QueueDb) (tip : BlockHash) (n : ℕ) : QueueDb where
  policyTip := some tip
  sidechainProposals := db.sidechainProposals.map
    (fun e => ({ e.1 with queuedAt := e.1.queuedAt.or (some n) },e.2))
  bundleProposals := db.bundleProposals.map
    (fun e => ({ e.1 with queuedAt := e.1.queuedAt.or (some n) },e.2))

omit [Bitcoin] in
theorem startedAt_queue (tip : BlockHash) (n : ℕ) : (db.startedAt tip n).queue =
    ⟨true,db.queue.proposals.start n,db.queue.bundles.start n⟩ := by
  have hproposals : Queue.ofRows (fun e => e.1.id) (fun e => ⟨e.2,e.1.queuedAt⟩)
      (db.startedAt tip n).sidechainProposals = db.queue.proposals.start n :=
    Queue.ofRows_start (fun _ => rfl) (fun _ => rfl)
  have hbundles : Queue.ofRows (fun e => e.1.id) (fun e => ⟨e.2,e.1.queuedAt⟩)
      (db.startedAt tip n).bundleProposals = db.queue.bundles.start n :=
    Queue.ofRows_start (fun _ => rfl) (fun _ => rfl)
  rw [queue,hproposals,hbundles]
  rfl

theorem WellFormed.startedAt (hw : db.WellFormed) (tip : BlockHash) (n : ℕ) :
    (db.startedAt tip n).WellFormed := by
  refine ⟨?_,?_,List.forall_mem_map.mpr hw.filed,
    fun hnone => absurd hnone (by simp [QueueDb.startedAt])⟩
  · rw [QueueDb.startedAt,List.map_map]
    exact hw.proposalKeys
  · rw [QueueDb.startedAt,List.map_map]
    exact hw.bundleKeys

theorem WellFormed.startedAt_lined (hw : db.WellFormed) (hr : Reach h (NodeValid node) False dbs c)
    (hnone : db.policyTip = none) (hunmarked : db.marks.InLine dbs.blockHashes []) {tip : BlockHash}
    {n : ℕ} (htip : dbs.currentChainTip = some tip) (hn : dbs.tipHeight = some n) :
    (db.startedAt tip n).Lined dbs := by
  obtain ⟨hp,hb⟩ := hw.untimed hnone
  refine ⟨htip.symm,?_,?_⟩
  · rw [marks,QueueDb.startedAt,List.forall_mem_map,List.forall_mem_map]
    intro e he
    rw [hr.proposal_unhit (by rw [hn,hp e he]; rfl)]
    exact hunmarked.1 e.1 (List.mem_map_of_mem he)
  · rw [marks,QueueDb.startedAt,List.forall_mem_map,List.forall_mem_map]
    intro e he
    rw [hr.bundle_unhit (by rw [hn,hb e he]; rfl)]
    exact hunmarked.2 e.1 (List.mem_map_of_mem he)

/-- Tables without a cursor start at the tip. -/
theorem WellFormed.startCursor (hw : db.WellFormed) (hr : Reach h (NodeValid node) False dbs c)
    (ha : AtCursor h node dbs.blockHashes db.marks) :
    ∃ db', db.startCursor dbs = .ok db' ∧ db'.WellFormed ∧
      AtCursor h node dbs.blockHashes db'.marks ∧ db'.queue = db.queue.next dbs .startCursor := by
  cases htip : db.policyTip with
  | some k =>
    refine ⟨db,by rw [QueueDb.startCursor,htip],hw,ha,?_⟩
    simp [PolicyQueue.next,queue,htip]
  | none =>
    have hs := hr.synced
    cases hc : c with
    | nil =>
      have hcur : dbs.currentChainTip = none := by rw [hs.tip,hc]; rfl
      refine ⟨db,by rw [QueueDb.startCursor,htip,hcur],hw,ha,?_⟩
      simp [PolicyQueue.next,queue,htip,Dbs.tipHeight,hcur]
    | cons b c' =>
      have hlinked := hs.linked
      rw [hc] at hlinked
      have hcur : dbs.currentChainTip = some b.blockHash := by rw [hs.tip,hc]; rfl
      have hheight := BlockHashDbs.linked_height hs.headers hlinked
      have hn : dbs.tipHeight = some c'.length := by rw [Dbs.tipHeight,hcur]; exact hheight
      have hhash : b.header.blockHash = b.blockHash := rfl
      have hstart : db.startCursor dbs = .ok (db.startedAt b.blockHash c'.length) := by
        simp only [QueueDb.startCursor,htip,hcur,BlockHashDbs.getHeaderInfo,hlinked.1,Database.get,
          hheight,hhash,Fallible.require_some,Fallible.ok_bind,Fallible.ensure,decide_true,if_true]
        rfl
      have hnext : db.queue.next dbs .startCursor =
          ⟨true,db.queue.proposals.start c'.length,db.queue.bundles.start c'.length⟩ := by
        rw [PolicyQueue.next,hn]
        simp [queue,htip]
      exact ⟨_,hstart,hw.startedAt _ _,
        (hw.startedAt_lined hr htip (unmarked htip ha) hcur hn).atCursor hr,
        (startedAt_queue _ _).trans hnext.symm⟩

end QueueDb

end Uses

end Bip300301Enforcer
