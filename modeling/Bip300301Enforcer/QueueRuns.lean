import Bip300301Enforcer.QueueTables

/-! Runs in which the chain changes, the block producer restarts and its queues are read and
written: the tables with their marks do what queues without marks do. -/
namespace Bip300301Enforcer
open Lib Chain BlockHandler

/-- The validator with its active chain, and the tables of the block producer. -/
structure QueueNode where
  dbs : Dbs
  chain : Chain
  db : QueueDb

namespace QueueNode

variable [Bitcoin] (h : BlockHandler) (node : BlockHash → Block)

/-- The reply to a use of the tables. One that fails is rolled back. -/
def answered {α : Type} (s : QueueNode) (reply : α → QueueReply)
    (r : Except QueueError (α × QueueDb)) : QueueReply × QueueNode :=
  match r with
  | .ok (x,db) => (reply x,{ s with db })
  | .error e => (.failed e,s)

def call (s : QueueNode) : QueueCall → QueueReply × QueueNode
  | .chain call =>
    let r := call.run h (NodeValid node) (s.dbs,s.chain)
    (.nothing,{ s with dbs := r.1, chain := r.2 })
  | .startCursor =>
    match s.db.startCursor s.dbs with
    | .ok db => (.nothing,{ s with db })
    | .error e => (.notStarted e,s)
  | .getOurSidechainProposals =>
    s.answered .sidechainProposals (s.db.getOurSidechainProposals h.params s.dbs)
  | .getBundleProposals => s.answered .bundleProposals (s.db.getBundleProposals h.params s.dbs)
  | .proposeSidechain proposal =>
    s.answered (fun _ => .queued) (s.db.proposeSidechain h.params s.dbs proposal)
  | .putWithdrawalBundle slot blindedM6 =>
    s.answered (fun _ => .queued) (s.db.putWithdrawalBundle h.params s.dbs slot blindedM6)

def run (db : QueueDb) (calls : List QueueCall) : QueueNode :=
  calls.foldl (fun s c => (s.call h node c).2) ⟨.empty,[],db⟩

def spec (s : QueueNode) : (Dbs × Chain) × PolicyQueue := ((s.dbs,s.chain),s.db.queue)

/-- No row has to fall back to an older mark, and the chain has a tip if there was one before. -/
structure InOrder (s : QueueNode) : Prop where
  keeps : s.db.marks.KeepsMarks s.dbs
  tip : s.dbs.currentChainTip = none → s.db.policyTip = none

end QueueNode

section Uses

variable [Bitcoin] {h : BlockHandler} {node : BlockHash → Block} {s : QueueNode}

/-- What holds of every state in a run. -/
structure QueueNode.Sound (h : BlockHandler) (node : BlockHash → Block) (s : QueueNode) : Prop where
  reach : Reach h (NodeValid node) False s.dbs s.chain
  cursor : AtCursor h node s.dbs.blockHashes s.db.marks
  wellFormed : s.db.WellFormed

/-- The tables that a read or a write uses. -/
theorem QueueNode.Sound.reconciled (hs : s.Sound h node) (ho : s.InOrder) :
    ∃ db : QueueDb, db.Lined s.dbs ∧ db.WellFormed ∧
      db.queue = { s.db.queue with started := s.dbs.tipHeight.isSome } ∧
      ∀ {α : Type} (f : Option ℕ → QueueDb → Except QueueError (α × QueueDb)),
        s.db.reconciled h.params s.dbs f = f s.dbs.tipHeight db := by
  obtain ⟨n,marks,hrec,hiff,-⟩ := reconcile_inLine_iff hs.reach hs.cursor
  obtain ⟨rfl,hsame,htip⟩ := reconcile_ok hrec
  obtain ⟨hmarks,hqueue,hwell⟩ := QueueDb.setMarks_same hsame
  have hcursor : marks.policyTip = s.dbs.currentChainTip := by
    rcases htip with htip | ⟨hnone,rfl⟩
    · exact htip
    · exact (ho.tip hnone).trans hnone.symm
  have hstarted : marks.policyTip.isSome = s.dbs.tipHeight.isSome := by
    have hsynced := hs.reach.synced
    rw [hcursor,Dbs.tipHeight,hsynced.tip]
    cases hc : s.chain with
    | nil => rfl
    | cons b c' =>
      have hlinked := hsynced.linked
      rw [hc] at hlinked
      rw [tipHash,Option.bind_some,BlockHashDbs.linked_height hsynced.headers hlinked]
      rfl
  refine ⟨s.db.setMarks marks,⟨hcursor,?_⟩,hwell hs.wellFormed ?_,?_,?_⟩
  · rw [hmarks]
    exact hiff.mpr ho.keeps
  · cases htip : marks.policyTip with
    | none => exact .inl (ho.tip (hcursor ▸ htip)).symm
    | some k => exact .inr (by simp)
  · rw [hqueue,hstarted]
  · intro α f
    unfold QueueDb.reconciled
    rw [hrec]
    rfl

namespace QueueNode

/-- What one call has to keep, and how it is answered. -/
structure Follows (h : BlockHandler) (node : BlockHash → Block) (s : QueueNode) (call : QueueCall) :
    Prop where
  sound : (s.call h node call).2.Sound h node
  spec : (s.call h node call).2.spec = PolicyQueue.step h node s.spec call
  answers : s.db.queue.Answers s.dbs call (s.call h node call).1

theorem Sound.stored (hs : s.Sound h node) {db : QueueDb} (hl : db.Lined s.dbs) (hw : db.WellFormed) :
    Sound h node { s with db } := ⟨hs.reach,hl.atCursor hs.reach,hw⟩

theorem Sound.getOurSidechainProposals (hs : s.Sound h node) (ho : s.InOrder) :
    Follows h node s .getOurSidechainProposals := by
  obtain ⟨db,hl,hw,hq,hrec⟩ := hs.reconciled ho
  have hcall : s.call h node .getOurSidechainProposals = (.sidechainProposals
      ((db.sidechainProposals.filter (fun e => e.1.minedIn = none)).map
        (fun e => ⟨e.1.sidechainNumber,e.2⟩)),{ s with db }) := by
    rw [call,QueueDb.getOurSidechainProposals,hrec]
    rfl
  have hproposals : db.queue.proposals = s.db.queue.proposals := by rw [hq]
  constructor
  · rw [hcall]
    exact hs.stored hl hw
  · rw [hcall,spec,hq]
    rfl
  · rw [hcall]
    exact ⟨_,rfl,hproposals ▸ hl.read_proposals hw⟩

theorem Sound.getBundleProposals (hs : s.Sound h node) (ho : s.InOrder) :
    Follows h node s .getBundleProposals := by
  obtain ⟨db,hl,hw,hq,hrec⟩ := hs.reconciled ho
  have hcall : s.call h node .getBundleProposals = (.bundleProposals
      ((db.bundleProposals.filter (fun e => e.1.settledIn = none)).foldl QueueDb.pushBundle .empty),
        { s with db }) := by
    rw [call,QueueDb.getBundleProposals,hrec]
    rfl
  have hbundles : db.queue.bundles = s.db.queue.bundles := by rw [hq]
  constructor
  · rw [hcall]
    exact hs.stored hl hw
  · rw [hcall,spec,hq]
    rfl
  · rw [hcall]
    exact ⟨_,rfl,fun slot => hbundles ▸ hl.read_bundles hw slot⟩

theorem Sound.proposeSidechain (hs : s.Sound h node) (ho : s.InOrder) (p : SidechainProposal) :
    Follows h node s (.proposeSidechain p) := by
  obtain ⟨db,hl,hw,hq,hrec⟩ := hs.reconciled ho
  have hstore := hl.storeProposal hw hs.reach p
  have hproposals : db.queue.proposals = s.db.queue.proposals := by rw [hq]
  rw [hproposals] at hstore
  by_cases hwait : p.computeId ∈ s.db.queue.proposals.waiting s.dbs.minedAbove
  · rw [if_pos hwait] at hstore
    have hcall : s.call h node (.proposeSidechain p) = (.failed .constraint,s) := by
      rw [call,QueueDb.proposeSidechain,hrec,hstore]
      rfl
    constructor
    · rw [hcall]
      exact hs
    · rw [hcall]
      exact Prod.ext rfl (if_pos hwait).symm
    · rw [hcall]
      exact (if_pos hwait).symm
  · rw [if_neg hwait] at hstore
    obtain ⟨db',hok,hl',hw',hq'⟩ := hstore
    have hcall : s.call h node (.proposeSidechain p) = (.queued,{ s with db := db' }) := by
      rw [call,QueueDb.proposeSidechain,hrec,hok]
      rfl
    rw [hq] at hq'
    constructor
    · rw [hcall]
      exact hs.stored hl' hw'
    · rw [hcall]
      exact Prod.ext rfl (hq'.trans (if_neg hwait).symm)
    · rw [hcall]
      exact (if_neg hwait).symm

theorem Sound.putWithdrawalBundle (hs : s.Sound h node) (ho : s.InOrder) (slot : SidechainNumber)
    (b : BlindedM6) : Follows h node s (.putWithdrawalBundle slot b) := by
  obtain ⟨db,hl,hw,hq,hrec⟩ := hs.reconciled ho
  have hstore := hl.storeBundle hw hs.reach slot b
  have hbundles : db.queue.bundles = s.db.queue.bundles := by rw [hq]
  rw [hbundles] at hstore
  by_cases hpaid : s.db.queue.bundles.verdict s.dbs.settledAbove (slot,b.computeM6id) = some true
  · rw [if_pos hpaid] at hstore
    have hcall : s.call h node (.putWithdrawalBundle slot b) =
        (.failed (.alreadyPaidOut b.computeM6id),s) := by
      rw [call,QueueDb.putWithdrawalBundle,hrec,hstore]
      rfl
    constructor
    · rw [hcall]
      exact hs
    · rw [hcall]
      exact Prod.ext rfl (if_pos hpaid).symm
    · rw [hcall]
      exact (if_pos hpaid).symm
  · rw [if_neg hpaid] at hstore
    obtain ⟨db',hok,hl',hw',hq'⟩ := hstore
    have hcall : s.call h node (.putWithdrawalBundle slot b) = (.queued,{ s with db := db' }) := by
      rw [call,QueueDb.putWithdrawalBundle,hrec,hok]
      rfl
    rw [hq] at hq'
    constructor
    · rw [hcall]
      exact hs.stored hl' hw'
    · rw [hcall]
      exact Prod.ext rfl (hq'.trans (if_neg hpaid).symm)
    · rw [hcall]
      exact (if_neg hpaid).symm

theorem Sound.startCursor (hs : s.Sound h node) : Follows h node s .startCursor := by
  obtain ⟨db,hok,hw,ha,hq⟩ := hs.wellFormed.startCursor hs.reach hs.cursor
  have hcall : s.call h node .startCursor = (.nothing,{ s with db }) := by
    rw [call,hok]
  constructor
  · rw [hcall]
    exact ⟨hs.reach,ha,hw⟩
  · rw [hcall]
    exact Prod.ext rfl hq
  · rw [hcall]
    rfl

theorem Sound.chain (hs : s.Sound h node) (call : Call) (hstale : call.isStale = false) :
    Follows h node s (.chain call) := by
  obtain ⟨hr,ha⟩ := PolicyNode.call_invariant (s := ⟨s.dbs,s.chain,s.db.marks⟩) (.chain call) hstale
    hs.reach hs.cursor (by simp)
  exact ⟨⟨hr,ha,hs.wellFormed⟩,rfl,rfl⟩

theorem Sound.follows (hs : s.Sound h node) (call : QueueCall) (hstale : call.isStale = false)
    (ho : call.Reconciles → s.InOrder) : Follows h node s call := by
  cases call with
  | chain call => exact hs.chain call hstale
  | startCursor => exact hs.startCursor
  | getOurSidechainProposals => exact hs.getOurSidechainProposals (ho trivial)
  | getBundleProposals => exact hs.getBundleProposals (ho trivial)
  | proposeSidechain p => exact hs.proposeSidechain (ho trivial) p
  | putWithdrawalBundle slot b => exact hs.putWithdrawalBundle (ho trivial) slot b

end QueueNode

end Uses

section Runs

variable [Bitcoin] {h : BlockHandler} {node : BlockHash → Block} {db : QueueDb}
  {calls pre post : List QueueCall} {call : QueueCall}

/-- Tables from before there was a cursor: rows have no marks, and were queued at no height. -/
structure QueueDb.Fresh (db : QueueDb) : Prop where
  wellFormed : db.WellFormed
  policyTip : db.policyTip = none
  unmarked : db.marks.Unmarked

/-- No use of the tables comes when a row has to fall back to an older mark. -/
def QueueNode.KeepsOrder (h : BlockHandler) (node : BlockHash → Block) (db : QueueDb)
    (calls : List QueueCall) : Prop :=
  ∀ pre call post, calls = pre++call::post → call.Reconciles → (run h node db pre).InOrder

namespace QueueNode

theorem run_concat : run h node db (calls++[call]) = ((run h node db calls).call h node call).2 := by
  simp [run]

theorem run_sound (hnew : db.Fresh) (hstale : ∀ call ∈ calls, call.isStale = false)
    (hkeep : KeepsOrder h node db calls) :
    (run h node db calls).Sound h node ∧
      (run h node db calls).spec = PolicyQueue.run h node db.queue calls := by
  induction calls using List.reverseRecOn with
  | nil =>
    refine ⟨⟨.empty,⟨[],hnew.policyTip,⟨trivial,trivial,by simp⟩,?_,?_⟩,hnew.wellFormed⟩,rfl⟩
    · intro row hrow
      exact hnew.unmarked.2.1 row hrow
    · intro row hrow
      exact hnew.unmarked.2.2 row hrow
  | append_singleton calls call ih =>
    obtain ⟨hs,hspec⟩ := ih (fun call' hc => hstale call' (List.mem_append_left _ hc))
      (fun pre call' post he => hkeep pre call' (post++[call]) (by rw [he]; simp))
    have hf := hs.follows call (hstale call (by simp)) (hkeep calls call [] rfl)
    rw [run_concat]
    refine ⟨hf.sound,hf.spec.trans ?_⟩
    rw [hspec,PolicyQueue.run,PolicyQueue.run,List.foldl_append]
    rfl

end QueueNode

/-- In every run of chain changes, restarts and uses of the tables, in which no row has to fall
back to an older mark, the tables with their marks do what queues without marks do: what is
read is exactly what was queued and is not mined or settled by a block of the active chain above
the tip that it was queued at, and every use leaves the queues that it should. -/
theorem queue_follows_chain (db : QueueDb) (calls : List QueueCall) (hnew : db.Fresh)
    (hstale : ∀ call ∈ calls, call.isStale = false) (hkeep : QueueNode.KeepsOrder h node db calls) :
    (QueueNode.run h node db calls).spec = PolicyQueue.run h node db.queue calls ∧
      ∀ pre call post, calls = pre++call::post →
        let t := PolicyQueue.run h node db.queue pre
        t.2.Answers t.1.1 call ((QueueNode.run h node db pre).call h node call).1 := by
  refine ⟨(QueueNode.run_sound hnew hstale hkeep).2,?_⟩
  rintro pre call post rfl
  obtain ⟨hs,hspec⟩ := QueueNode.run_sound hnew
    (fun call' hc => hstale call' (List.mem_append_left _ hc))
    (fun pre' call' post' he => hkeep pre' call' (post'++call::post) (by rw [he]; simp))
  have hf := hs.follows call (hstale call (by simp)) (hkeep pre call post rfl)
  rw [← hspec]
  exact hf.answers

end Runs

section Sample

open Sample MarksSample

instance {β : Type} (hit : BlockHash → Option β) (old cur : List BlockHash) :
    Decidable (KeepsMark hit old cur) :=
  decidable_of_iff (if cur = [] then ∀ k ∈ old, (hit k).isNone
      else old.any (fun k => k ∉ cur && (hit k).isSome) →
        old.any (fun k => k ∈ cur && (hit k).isSome) → cur.any (fun k => k ∉ old && (hit k).isSome))
    (by simp [KeepsMark,Option.isSome_iff_ne_none])

instance [Bitcoin] (s : QueueNode) : Decidable s.InOrder :=
  decidable_of_iff (((∀ row ∈ s.db.marks.sidechainProposals, KeepsMark (row.hit s.dbs.blockHashes)
      (s.db.marks.cursorChain s.dbs) s.dbs.activeChain) ∧
    ∀ row ∈ s.db.marks.bundleProposals, KeepsMark (row.hit s.dbs.blockHashes)
      (s.db.marks.cursorChain s.dbs) s.dbs.activeChain) ∧
    (s.dbs.currentChainTip = none → s.db.policyTip = none))
    ⟨fun h => ⟨h.1,h.2⟩,fun h => ⟨h.keeps,h.tip⟩⟩

instance : DecidablePred QueueCall.Reconciles := fun call => by
  cases call <;> unfold QueueCall.Reconciles <;> infer_instance

theorem keepsOrder_of_take [Bitcoin] {h : BlockHandler} {node : BlockHash → Block} {db : QueueDb}
    {calls : List QueueCall} (hkeep : ∀ e ∈ calls.zipIdx, e.1.Reconciles →
      (QueueNode.run h node db (calls.take e.2)).InOrder) : QueueNode.KeepsOrder h node db calls := by
  rintro pre call post rfl hcall
  have hmem : (call,pre.length) ∈ (pre++call::post).zipIdx :=
    List.mk_mem_zipIdx_iff_getElem?.mpr (by simp)
  simpa using hkeep _ hmem hcall

namespace QueueSample

def proposal : SidechainProposal := ⟨0,description⟩

def fresh : QueueDb := ⟨none,[],[]⟩

def mined : List QueueCall :=
  (blocks.take 2).zipIdx.map (fun e => .chain (.header e.1.header e.2))++
    (blocks.take 1).map (fun b => .chain (.connect b))++
    [.startCursor,.proposeSidechain proposal,.proposeSidechain proposal,.getOurSidechainProposals]++
    ((blocks.take 2).drop 1).map (fun b => .chain (.connect b))++[.getOurSidechainProposals]

def calls : List QueueCall := mined++[.proposeSidechain proposal,.getOurSidechainProposals]

end QueueSample

open QueueSample

theorem queue_follows_chain_sample :
    (QueueNode.run handler node fresh calls).spec = PolicyQueue.run handler node fresh.queue calls ∧
      (QueueNode.run handler node fresh mined).db.sidechainProposals.map
        (fun e => (e.1.queuedAt,e.1.minedIn.isSome)) = [(some 0,true)] ∧
      (QueueNode.run handler node fresh calls).db.sidechainProposals.map
        (fun e => (e.1.queuedAt,e.1.minedIn.isSome)) = [(some 1,false)] := by
  have hnew : fresh.Fresh :=
    ⟨⟨List.nodup_nil,List.nodup_nil,by simp [fresh],fun _ => ⟨by simp [fresh],by simp [fresh]⟩⟩,rfl,
      rfl,by simp [fresh,QueueDb.marks],by simp [fresh,QueueDb.marks]⟩
  have hkeep : QueueNode.KeepsOrder handler node fresh calls :=
    keepsOrder_of_take (by decide +kernel)
  exact ⟨(queue_follows_chain fresh calls hnew (by decide +kernel) hkeep).1,by decide +kernel,
    by decide +kernel⟩

end Sample

end Bip300301Enforcer
