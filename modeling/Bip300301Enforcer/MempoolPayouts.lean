import Bip300301Enforcer.BmmAuction
import Bip300301Enforcer.MempoolSoundness

/-! The withdrawals of the mempool beside the bundles that they pay. The mempool takes a
withdrawal while its bundle is pending, and a template only once the bundle has its votes. -/
namespace Bip300301Enforcer
open Lib BlockHandler

namespace BlockProducer

/-- The withdrawals whose bundle is not payable: it is no longer pending, or has too few
votes. -/
def unpayableMempoolPayouts (threshold : UInt16)
    (mempoolPayouts : FinMap Txid (SidechainNumber × M6id))
    (pendingAfter : FinMap SidechainNumber PendingM6ids) : List Txid :=
  (mempoolPayouts.toList.filter
    (fun e => !stillPayable threshold pendingAfter e.2.1 e.2.2)).map Prod.fst

def forgetMempoolPayouts [Bitcoin] (mempoolPayouts : FinMap Txid (SidechainNumber × M6id))
    (block : Block) : FinMap Txid (SidechainNumber × M6id) :=
  mempoolPayouts.eraseAll (block.txdata.map Transaction.computeTxid)

/-- Remember the bundle that an accepted transaction pays. -/
def noteMempoolPayout (mempoolPayouts : FinMap Txid (SidechainNumber × M6id)) (txid : Txid) :
    Option (SidechainNumber × M6id) → FinMap Txid (SidechainNumber × M6id)
  | some payout => mempoolPayouts.insert txid payout
  | none => mempoolPayouts

end BlockProducer

/-- A node with a block producer: each transaction of the mempool with the state it was
accepted in, the latest first, and the bundles that the producer remembers. -/
structure ProducerNode where
  dbs : Dbs
  mempool : List Admission
  mempoolPayouts : FinMap Txid (SidechainNumber × M6id)

namespace ProducerNode

open BlockProducer

variable [Bitcoin] (h : BlockHandler)

def drop (mempool : List Admission) (txids : List Txid) : List Admission :=
  mempool.filter (fun e => e.tx.computeTxid ∉ txids)

/-- Make one call to the block producer, which asks the validator. -/
def call (s : ProducerNode) : EnforcerCall → ProducerNode
  | .acceptTx tx =>
    match h.acceptTxWithPayout s.dbs tx with
    | .ok (action,payout,dbs) =>
      let mempoolPayouts := noteMempoolPayout s.mempoolPayouts tx.computeTxid payout
      match action with
      | .accept conflictsWith _ => ⟨dbs,⟨s.dbs,tx,conflictsWith,payout⟩::s.mempool,mempoolPayouts⟩
      | .reject => { s with mempoolPayouts }
    | .error _ => s
  | .connectBlock block =>
    match h.connectBlockCommit s.dbs block with
    | .ok (.accept removed,dbs) =>
      ⟨dbs,drop s.mempool (removed++block.txdata.map Transaction.computeTxid),
        forgetMempoolPayouts s.mempoolPayouts block⟩
    | .ok (.reject,dbs) => { s with dbs }
    | .error _ => s
  | .disconnectBlock blockHash =>
    match disconnectBlockCommit s.dbs blockHash with
    | .ok (removed,dbs) => { s with dbs, mempool := drop s.mempool removed }
    | .error _ => s

def run (s : ProducerNode) (calls : List EnforcerCall) : ProducerNode := calls.foldl (call h) s

def enforced (s : ProducerNode) : EnforcedNode :=
  ⟨s.dbs,s.mempool.map (fun e => ⟨e.tx,e.conflictsWith⟩)⟩

/-- The bundle that a transaction of the mempool pays, as it was last accepted. -/
def newestPayout (mempool : List Admission) (txid : Txid) : Option (SidechainNumber × M6id) :=
  mempool.findSome? (fun e => if e.tx.computeTxid = txid then e.payout else none)

end ProducerNode

section Payout

variable {h : BlockHandler} {dbs : Dbs} {tx : Transaction} {s : SidechainNumber} {m6id : M6id}
  {infos : FinMap SidechainNumber TxCtipsInfo} {res : Option DepositsOrSuccessfulWithdrawal}
  {newCtips : UnconsolidatedCtips} {acc : TxState} {accepted : BmmCommitments} {parent hash : BlockHash}

theorem stillPayable_iff {threshold : UInt16} {pending : FinMap SidechainNumber PendingM6ids} :
    BlockProducer.stillPayable threshold pending s m6id = true ↔ Payable threshold pending s m6id := by
  rw [BlockProducer.stillPayable,Payable]
  cases hp : pending.get? s with
  | none => simp
  | some p =>
    cases hi : p.get? m6id with
    | none => simp [hi]
    | some info => simp [hi]

variable [Bitcoin]

theorem BlockHandler.Admitted.withdraws (ha : Admitted h dbs tx infos res newCtips (some (s,m6id))) :
    ∃ info d cc p, infos.toList = [(s,info)] ∧ info.ctipOutput.value < info.treasuryValueIn ∧
      Withdraws { h with requirePayableBundles := false } dbs.activeSidechains tx s info d cc p ∧
      d.removedPendingWithdrawal = m6id := by
  have hrec := ha.recorded
  have hout := ha.outcome
  cases res with
  | none => cases hrec
  | some res =>
    cases res with
    | m5Deposits deposits d => cases hrec
    | m6Withdrawal s' m6id' n d =>
      obtain ⟨-,hpay⟩ := Prod.mk.inj hrec
      obtain ⟨rfl,rfl⟩ := Prod.mk.inj (Option.some.inj hpay)
      obtain ⟨info,hl,hlt,hmake,rfl,-⟩ := hout
      obtain ⟨cc,p,hw⟩ := makeM6_ok.mp hmake
      exact ⟨info,d,cc,p,hl,hlt,hw,rfl⟩

theorem BlockHandler.makeM6_of_lower {dbs : ActiveSidechainDbs} {info : TxCtipsInfo}
    (hout : Outcome h dbs tx [(s,info)] res) (hlt : info.ctipOutput.value < info.treasuryValueIn) :
    ∃ d, h.makeM6 dbs tx s info = .ok d := by
  cases res with
  | none => cases hout
  | some res =>
    cases res with
    | m5Deposits deposits d =>
      have hslot := (hout.2.1 (s,info) (by simp)).1
      exact absurd hslot.le (Nat.not_le.mpr hlt)
    | m6Withdrawal s' m6id n d =>
      obtain ⟨info',hl,-,hmake,-⟩ := hout
      rw [List.singleton_inj] at hl
      obtain ⟨rfl,rfl⟩ := Prod.mk.inj hl
      exact ⟨d,hmake⟩

/-- A block that sees a withdrawal as the mempool did connects it exactly if its bundle is
payable there. -/
theorem BlockHandler.Admitted.connects_iff (hreq : h.requirePayableBundles = true)
    (ha : Admitted h dbs tx infos res newCtips (some (s,m6id)))
    (hview : h.fillCtips acc.dbs acc.unconsolidatedCtips tx = .ok infos) :
    (∃ acc', h.connectTx accepted parent hash acc tx = .ok acc') ↔
      Payable h.thresholds.withdrawalBundleInclusionThreshold acc.dbs.pendingM6ids s m6id := by
  obtain ⟨info,d,cc,p,hl,hlt,hw,rfl⟩ := ha.withdraws
  constructor
  · rintro ⟨acc',hc⟩
    obtain ⟨infos',res',hd⟩ := connectTx_ok hc
    obtain rfl := Except.ok.inj (hview.symm.trans hd.fill)
    have hout := hd.outcome
    rw [hl] at hout
    obtain ⟨d',hmake⟩ := makeM6_of_lower hout hlt
    obtain ⟨cc',q,hw'⟩ := makeM6_ok.mp hmake
    have hm6id := (Prod.mk.inj (Except.ok.inj (hw.m6id.symm.trans hw'.m6id))).1
    refine ⟨q,d'.removedPendingWithdrawalInfo,hw'.pending,?_,hw'.payable hreq⟩
    rw [hm6id]
    exact OrderMap.getFull_get? hw'.position
  · rintro ⟨q,info',hq,hinfo,hvotes⟩
    obtain ⟨i,hpos⟩ := OrderMap.getFull_of_get? hinfo
    have hmake : h.makeM6 acc.dbs tx s info =
        .ok ⟨s,info.ctipOutput,d.removedPendingWithdrawal,i,info'⟩ :=
      makeM6_ok.mpr ⟨cc,q,rfl,rfl,hw.spendsCtip,hw.onlyTreasury,hw.vout,hw.m6id,hq,hpos,
        fun _ => hvotes⟩
    obtain ⟨r,hr⟩ := handleM5M6_succeeds hview (.inr ⟨s,info,_,hl,hlt,hmake⟩)
    exact connectTx_succeeds (BlockProducer.parseM8Tx_of_payout hw.m6id) hr

end Payout

namespace ProducerNode

open BlockProducer

section Tracked

variable [Bitcoin] {h : BlockHandler} {node : ProducerNode} {mempool : List Admission}
  {payouts : FinMap Txid (SidechainNumber × M6id)} {tx : Transaction}
  {txid : Txid}

/-- A transaction of the mempool was accepted with what it pays. -/
def AcceptedAs (h : BlockHandler) (e : Admission) : Prop :=
  ∃ weight dbs', h.acceptTxWithPayout e.dbs e.tx = .ok (.accept e.conflictsWith weight,e.payout,dbs')

/-- The producer remembers every bundle that the mempool pays. -/
structure Tracks (h : BlockHandler) (s : ProducerNode) : Prop where
  accepted : ∀ e ∈ s.mempool, AcceptedAs h e
  payouts : ∀ txid p, newestPayout s.mempool txid = some p → s.mempoolPayouts.get? txid = some p

theorem newestPayout_cons (e : Admission) :
    newestPayout (e::mempool) txid =
      (if e.tx.computeTxid = txid then e.payout else none).or (newestPayout mempool txid) := by
  rw [newestPayout,List.findSome?_cons]
  cases if e.tx.computeTxid = txid then e.payout else none <;> rfl

theorem newestPayout_drop {txids : List Txid} :
    newestPayout (drop mempool txids) txid =
      if txid ∈ txids then none else newestPayout mempool txid := by
  induction mempool with
  | nil => simp [newestPayout,drop]
  | cons e mempool ih =>
    rw [newestPayout_cons]
    by_cases hd : e.tx.computeTxid ∈ txids
    · have hdrop : drop (e::mempool) txids = drop mempool txids := by simp [drop,hd]
      rw [hdrop,ih]
      by_cases he : e.tx.computeTxid = txid
      · simp [← he,hd]
      · simp [he]
    · have hdrop : drop (e::mempool) txids = e::drop mempool txids := by simp [drop,hd]
      rw [hdrop,newestPayout_cons,ih]
      by_cases he : e.tx.computeTxid = txid
      · simp [← he,hd]
      · simp [he]

theorem newestPayout_of_split {newer older : List Admission} {e : Admission}
    {p : SidechainNumber × M6id} (hmem : mempool = newer++e::older)
    (hnewest : ∀ e' ∈ newer, e'.tx.computeTxid = e.tx.computeTxid → e'.payout = none)
    (hpay : e.payout = some p) : newestPayout mempool e.tx.computeTxid = some p := by
  subst hmem
  induction newer with
  | nil => simp [newestPayout_cons,hpay]
  | cons e' newer ih =>
    have ih := ih (fun x hx => hnewest x (List.mem_cons_of_mem _ hx))
    rw [List.cons_append,newestPayout_cons,ih]
    by_cases he : e'.tx.computeTxid = e.tx.computeTxid
    · simp [hnewest e' List.mem_cons_self he]
    · simp [he]

theorem accept_of_payout {dbs dbs' : Dbs} {action : TxAcceptAction} {p : SidechainNumber × M6id}
    (ha : h.acceptTxWithPayout dbs tx = .ok (action,some p,dbs')) :
    ∃ conflictsWith weight, action = .accept conflictsWith weight := by
  obtain ⟨validated,-,ha⟩ := Fallible.bind_ok.mp ha
  split at ha
  · cases ha
  · simp only [Fallible.pure_ok,Prod.mk.injEq] at ha
    exact ⟨_,_,ha.1.symm⟩

theorem forget_get? (block : Block) : (forgetMempoolPayouts payouts block).get? txid =
    if txid ∈ block.txdata.map Transaction.computeTxid then none else payouts.get? txid :=
  FinMap.get?_eraseAll _ _ _

theorem Tracks.acceptTx (ht : node.Tracks h) (tx : Transaction) :
    (node.call h (.acceptTx tx)).Tracks h := by
  simp only [call]
  split
  · rename_i action payout dbs ha
    cases action with
    | reject =>
      cases payout with
      | none => exact ht
      | some p =>
        obtain ⟨_,_,hx⟩ := accept_of_payout ha
        cases hx
    | accept conflictsWith weight =>
      refine ⟨?_,?_⟩
      · intro e he
        rcases List.mem_cons.mp he with rfl | he
        · exact ⟨weight,dbs,ha⟩
        · exact ht.accepted e he
      · intro txid p hp
        rw [newestPayout_cons] at hp
        cases payout with
        | none => exact ht.payouts txid p (by simpa using hp)
        | some q =>
          rw [noteMempoolPayout,FinMap.get?_insert]
          by_cases he : tx.computeTxid = txid
          · simpa [he] using hp
          · rw [if_neg he]
            exact ht.payouts txid p (by simpa [he] using hp)
  · exact ht

theorem Tracks.call (ht : node.Tracks h) : ∀ c : EnforcerCall, (node.call h c).Tracks h
  | .acceptTx tx => ht.acceptTx tx
  | .connectBlock block => by
    simp only [ProducerNode.call]
    split
    · refine ⟨fun e he => ht.accepted e (List.mem_of_mem_filter he),fun txid p hp => ?_⟩
      rw [newestPayout_drop] at hp
      rw [forget_get?]
      split at hp
      · cases hp
      · rename_i hkept
        rw [if_neg (fun hm => hkept (List.mem_append_right _ hm))]
        exact ht.payouts txid p hp
    · exact ⟨ht.accepted,ht.payouts⟩
    · exact ht
  | .disconnectBlock blockHash => by
    simp only [ProducerNode.call]
    split
    · refine ⟨fun e he => ht.accepted e (List.mem_of_mem_filter he),fun txid p hp => ?_⟩
      rw [newestPayout_drop] at hp
      split at hp
      · cases hp
      · exact ht.payouts txid p hp
    · exact ht

theorem Tracks.run (ht : node.Tracks h) (calls : List EnforcerCall) : (node.run h calls).Tracks h := by
  induction calls generalizing node with
  | nil => exact ht
  | cons c calls ih => exact ih (ht.call c)

theorem tracks_run (dbs : Dbs) (calls : List EnforcerCall) :
    (run h ⟨dbs,[],.empty⟩ calls).Tracks h :=
  Tracks.run ⟨(by simp),(by simp [newestPayout])⟩ calls

/-- A call that adds to what the producer remembers accepts a withdrawal. -/
theorem remembered_call {c : EnforcerCall} {p : SidechainNumber × M6id}
    (hp : (node.call h c).mempoolPayouts.get? txid = some p) :
    node.mempoolPayouts.get? txid = some p ∨ ∃ tx action dbs', c = .acceptTx tx ∧
      tx.computeTxid = txid ∧ h.acceptTxWithPayout node.dbs tx = .ok (action,some p,dbs') := by
  cases c with
  | acceptTx tx =>
    simp only [call] at hp
    split at hp
    · rename_i action payout dbs' ha
      have hnote :
          (noteMempoolPayout node.mempoolPayouts tx.computeTxid payout).get? txid = some p := by
        cases action <;> exact hp
      cases payout with
      | none => exact .inl hnote
      | some q =>
        rw [noteMempoolPayout,FinMap.get?_insert] at hnote
        by_cases he : tx.computeTxid = txid
        · rw [if_pos he] at hnote
          rw [Option.some.inj hnote] at ha
          exact .inr ⟨tx,action,dbs',rfl,he,ha⟩
        · rw [if_neg he] at hnote
          exact .inl hnote
    · exact .inl hp
  | connectBlock block =>
    simp only [call] at hp
    split at hp
    · rw [forget_get?] at hp
      split at hp
      · cases hp
      · exact .inl hp
    · exact .inl hp
    · exact .inl hp
  | disconnectBlock blockHash =>
    simp only [call] at hp
    split at hp <;> exact .inl hp

theorem remembered_run {dbs : Dbs} {calls : List EnforcerCall} {p : SidechainNumber × M6id}
    (hp : (run h ⟨dbs,[],.empty⟩ calls).mempoolPayouts.get? txid = some p) :
    ∃ before tx after action dbs', calls = before++.acceptTx tx::after ∧ tx.computeTxid = txid ∧
      h.acceptTxWithPayout (run h ⟨dbs,[],.empty⟩ before).dbs tx = .ok (action,some p,dbs') := by
  induction calls using List.reverseRecOn with
  | nil => simp [run] at hp
  | append_singleton calls c ih =>
    rw [run,List.foldl_append] at hp
    rcases remembered_call hp with hp | ⟨tx,action,dbs',rfl,htxid,ha⟩
    · obtain ⟨before,tx,after,action,dbs',rfl,htxid,ha⟩ := ih hp
      exact ⟨before,tx,after++[c],action,dbs',by simp,htxid,ha⟩
    · exact ⟨calls,tx,[],action,dbs',rfl,htxid,ha⟩

theorem enforced_drop {txids : List Txid} :
    (drop mempool txids).map (fun e => (⟨e.tx,e.conflictsWith⟩ : MempoolTx)) =
      EnforcedNode.drop (mempool.map (fun e => ⟨e.tx,e.conflictsWith⟩)) txids := by
  rw [drop,EnforcedNode.drop,List.filter_map]
  rfl

theorem enforced_call (c : EnforcerCall) : (node.call h c).enforced = node.enforced.call h c := by
  cases c with
  | acceptTx tx =>
    simp only [call,EnforcedNode.call,enforced]
    rcases h.acceptTxWithPayout node.dbs tx with _ | ⟨_ | _,payout,dbs⟩ <;> rfl
  | connectBlock block =>
    simp only [call,EnforcedNode.call,enforced]
    rcases h.connectBlockCommit node.dbs block with _ | ⟨_ | _,dbs⟩
    · rfl
    · simp only [enforced_drop]
    · rfl
  | disconnectBlock blockHash =>
    simp only [call,EnforcedNode.call,enforced]
    rcases disconnectBlockCommit node.dbs blockHash with _ | ⟨removed,dbs⟩
    · rfl
    · simp only [enforced_drop]

theorem enforced_run (calls : List EnforcerCall) :
    (node.run h calls).enforced = calls.foldl (EnforcedNode.call h) node.enforced := by
  induction calls generalizing node with
  | nil => rfl
  | cons c calls ih =>
    rw [List.foldl_cons,← enforced_call]
    exact ih

end Tracked

end ProducerNode

section Template

variable [Bitcoin]

open BlockProducer ProducerNode

omit [Bitcoin] in
theorem mem_unpayableMempoolPayouts {threshold : UInt16}
    {mempoolPayouts : FinMap Txid (SidechainNumber × M6id)}
    {pendingAfter : FinMap SidechainNumber PendingM6ids} {txid : Txid} :
    txid ∈ unpayableMempoolPayouts threshold mempoolPayouts pendingAfter ↔ ∃ s m6id,
      mempoolPayouts.get? txid = some (s,m6id) ∧ ¬ Payable threshold pendingAfter s m6id := by
  simp only [unpayableMempoolPayouts,List.mem_map,List.mem_filter,Bool.not_eq_true',
    ← Bool.not_eq_true,stillPayable_iff,Prod.exists,FinMap.mem_toList]
  constructor
  · rintro ⟨_,s,m6id,⟨hget,hpay⟩,rfl⟩
    exact ⟨s,m6id,hget,hpay⟩
  · rintro ⟨s,m6id,hget,hpay⟩
    exact ⟨txid,s,m6id,⟨hget,hpay⟩,rfl⟩

/-- In every run of the node the producer keeps exactly the withdrawals out of a template that
the validator would reject there. Whether one is kept out is decided by the bundle that it was
last accepted for, and a block whose bundles of that slot are as after the template's coinbase,
and that sees the treasuries of the withdrawal as the mempool did, connects it if and only if
it is not kept out. Nothing but withdrawals that were accepted in the run is kept out, and
neither the validator nor the mempool notices that they are tracked. -/
theorem payouts_kept_out (params : NetworkParams) (dbs : Dbs) (calls : List EnforcerCall)
    (pendingAfter : FinMap SidechainNumber PendingM6ids) :
    let node := run (.new params) ⟨dbs,[],.empty⟩ calls
    let keptOut := unpayableMempoolPayouts params.thresholds.withdrawalBundleInclusionThreshold
      node.mempoolPayouts pendingAfter
    (∀ newer e older s m6id, node.mempool = newer++e::older →
      (∀ e' ∈ newer, e'.tx.computeTxid = e.tx.computeTxid → e'.payout = none) →
      e.payout = some (s,m6id) →
      ∀ acc accepted parent hash, acc.dbs.pendingM6ids.get? s = pendingAfter.get? s →
        (BlockHandler.new params).fillCtips acc.dbs acc.unconsolidatedCtips e.tx =
          (BlockHandler.new params).fillCtips e.dbs.activeSidechains (seenUnconsolidated e.dbs e.tx)
            e.tx →
        ((∃ acc', (BlockHandler.new params).connectTx accepted parent hash acc e.tx = .ok acc') ↔
          e.tx.computeTxid ∉ keptOut)) ∧
    (∀ txid ∈ keptOut, ∃ before tx after s m6id action dbs', calls = before++.acceptTx tx::after ∧
      tx.computeTxid = txid ∧
      ¬ Payable params.thresholds.withdrawalBundleInclusionThreshold pendingAfter s m6id ∧
      (BlockHandler.new params).acceptTxWithPayout (run (.new params) ⟨dbs,[],.empty⟩ before).dbs tx =
        .ok (action,some (s,m6id),dbs')) ∧
    node.enforced = calls.foldl (EnforcedNode.call (.new params)) ⟨dbs,[]⟩ := by
  refine ⟨?_,?_,enforced_run calls⟩
  · intro newer e older s m6id hmem hnewest hpay acc accepted parent hash hpending hview
    have htracks : (run (.new params) ⟨dbs,[],.empty⟩ calls).Tracks (.new params) :=
      tracks_run dbs calls
    have hget := htracks.payouts _ _ (newestPayout_of_split hmem hnewest hpay)
    obtain ⟨weight,dbs',haccepted⟩ := htracks.accepted e (by rw [hmem]; simp)
    obtain ⟨-,-,newCtips,infos,res,hadmitted,-⟩ := acceptTxWithPayout_ok haccepted
    rw [hpay] at hadmitted
    rw [hadmitted.connects_iff rfl (hview.trans hadmitted.fill),mem_unpayableMempoolPayouts,Payable,
      hpending]
    constructor
    · rintro hp ⟨s',m6id',hget',hnot⟩
      obtain ⟨rfl,rfl⟩ := Prod.mk.inj (Option.some.inj (hget.symm.trans hget'))
      exact hnot hp
    · intro hkept
      by_contra hnot
      exact hkept ⟨s,m6id,hget,hnot⟩
  · intro txid hmem
    obtain ⟨s,m6id,hget,hnot⟩ := mem_unpayableMempoolPayouts.mp hmem
    obtain ⟨before,tx,after,action,dbs',hcalls,htxid,haccepted⟩ := remembered_run hget
    exact ⟨before,tx,after,s,m6id,action,dbs',hcalls,htxid,hnot,haccepted⟩

end Template

section Sample

open Sample TreasurySample MempoolSample BlockProducer ProducerNode

namespace PayoutSample

def early : Transaction :=
  ⟨2,0,[.spending (first.outpoint 0)],[⟨60,treasuryScript⟩,⟨30,[0x51]⟩]⟩

def node : ProducerNode := ProducerNode.run handler ⟨(run 14).1,[],.empty⟩ [.acceptTx early]

def pendingAfter (scripts : List Script) : FinMap SidechainNumber PendingM6ids :=
  match handler.getWithdrawalStateAfter (run 14).1
      (blockOn (((blocks 14).getLast?.map Block.blockHash).getD allZeros) 14 scripts []) with
  | .ok (some state) => state.pendingWithdrawals
  | _ => .empty

def keptOut (scripts : List Script) : List Txid :=
  unpayableMempoolPayouts handler.params.thresholds.withdrawalBundleInclusionThreshold
    node.mempoolPayouts (pendingAfter scripts)

def start (scripts : List Script) : TxState :=
  ⟨{ (run 14).1.activeSidechains with pendingM6ids := pendingAfter scripts },.default,[],[],[]⟩

theorem start_pending (scripts : List Script) :
    (start scripts).dbs.pendingM6ids = pendingAfter scripts := by
  simp only [start]

theorem mempool_eq : node.mempool = [⟨(run 14).1,early,[],some (0,bundle)⟩] := by
  have hrun : (admitAll handler (run 14).1 [early]).map (fun l =>
      l.map (fun e => (e.conflictsWith,e.payout))) = some [([],some (0,bundle))] := by decide +kernel
  obtain ⟨l,hl,hpaid⟩ := Option.map_eq_some_iff.mp hrun
  unfold admitAll at hl
  split at hl
  · rename_i called
    simp only [admitAll,Option.map_some,Option.some.injEq] at hl
    subst hl
    simp only [List.map_cons,List.map_nil,List.cons.injEq,Prod.mk.injEq,and_true] at hpaid
    obtain ⟨rfl,rfl⟩ := hpaid
    rw [node,ProducerNode.run,List.foldl_cons,List.foldl_nil,call,called]
  · cases hl

end PayoutSample

open PayoutSample

theorem payouts_kept_out_sample : keptOut [] = [early.computeTxid] ∧ keptOut [m4Script [0]] = [] ∧
    (¬ ∃ acc', handler.connectTx .empty 0 0 (start []) early = .ok acc') ∧
    ∃ acc', handler.connectTx .empty 0 0 (start [m4Script [0]]) early = .ok acc' := by
  have hout : keptOut [] = [early.computeTxid] := by decide +kernel
  have hkept : keptOut [m4Script [0]] = [] := by decide +kernel
  have hiff : ∀ scripts,
      handler.fillCtips (start scripts).dbs (start scripts).unconsolidatedCtips early =
      handler.fillCtips (run 14).1.activeSidechains (seenUnconsolidated (run 14).1 early) early →
      ((∃ acc', handler.connectTx .empty 0 0 (start scripts) early = .ok acc') ↔
        early.computeTxid ∉ keptOut scripts) := by
    intro scripts hview
    have hkeeps := (payouts_kept_out handler.params (run 14).1 [.acceptTx early]
      (pendingAfter scripts)).1 [] _ [] 0 bundle mempool_eq (by simp) rfl (start scripts) .empty 0 0
      (by rw [start_pending])
    dsimp only at hkeeps
    exact hkeeps hview
  refine ⟨hout,hkept,?_,?_⟩
  · rw [hiff [] (by decide +kernel),hout]
    simp
  · rw [hiff [m4Script [0]] (by decide +kernel),hkept]
    exact List.not_mem_nil

end Sample

end Bip300301Enforcer
