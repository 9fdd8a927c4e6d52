import Bip300301Enforcer.Activation
import Bip300301Enforcer.BlockSteps
import Bip300301Enforcer.Bmm
import Bip300301Enforcer.VoteBounds

/-! A block that is read on a state that can be reached is rejected for reasons that
lie in the block: nothing panics, and no table lookup fails. -/
namespace Bip300301Enforcer
open Lib Chain BlockHandler Diff ActiveSidechainDbs
open Fallible (FailsOnly)

def Error.Rejects (e : Error) : Prop := e.fatality = .jfyi

section Votes

variable {t : ConsensusDbs} {d : AckBundles}

theorem getPending_failsOnly (ht : t.activeSidechains.Tables) {s : SidechainNumber}
    (hs : t.activeSidechains.sidechain.contains s = true) {P : Error → Prop} :
    FailsOnly P (Database.get t.activeSidechains.pendingM6ids .pendingM6ids s) := by
  obtain ⟨p,hp⟩ := pending_of_active ht hs
  exact .of_ok ((Database.get_ok _ _ _ _).mpr hp)

theorem handleM4Vote_failsOnly (ht : t.activeSidechains.Tables) {e : SidechainNumber × UInt16}
    (hs : t.activeSidechains.sidechain.contains e.1 = true) :
    FailsOnly Error.Rejects (handleM4Vote t d e) := by
  unfold handleM4Vote
  split
  · exact .ok _
  · refine .bind (getPending_failsOnly ht hs) (fun p _ => ?_)
    split
    · exact .pure _
    · exact .bind (.require (fun _ => rfl)) (fun _ _ => .pure _)

theorem handleM4Votes_failsOnly (ht : t.activeSidechains.Tables) {upvotes : List UInt16} :
    FailsOnly Error.Rejects (handleM4Votes t upvotes) := by
  refine .bind (.ensure (fun _ => rfl)) (fun _ _ => ?_)
  refine .foldlM (fun _ _ => True) trivial (fun _ _ _ _ _ _ _ _ => trivial) ?_
  intro done e rest d hl _
  have hmem : e ∈ t.activeSidechains.numbers.zip upvotes := by rw [hl]; simp
  exact handleM4Vote_failsOnly ht (FinMap.mem_keys.mp (List.of_mem_zip hmem).1)

theorem handleM4LeadingBy50_failsOnly (ht : t.activeSidechains.Tables) :
    FailsOnly Error.Rejects (handleM4LeadingBy50 t) := by
  refine .foldlM (fun _ _ => True) trivial (fun _ _ _ _ _ _ _ _ => trivial) ?_
  intro done s rest d hl _
  have hmem : s ∈ t.activeSidechains.numbers := by rw [hl]; simp
  exact .bind (getPending_failsOnly ht (FinMap.mem_keys.mp hmem)) (fun _ _ => .pure _)

def VotesActive (t : ConsensusDbs) (d : Diff.Block) : Prop :=
  ∀ ab, .ackBundles ab ∈ d.coinbase.msgs → ∀ s, ab.actions.contains s = true →
    t.activeSidechains.sidechain.contains s = true

/-- The votes of the parent block can be repeated. -/
structure ParentKnown (t : ConsensusDbs) (parent : BlockHash) (prevDiff : Option Diff.Block) : Prop
    where
  stored : parent ≠ allZeros → ∃ d, prevDiff = some d
  votes : ∀ d, prevDiff = some d → VotesActive t d

theorem mem_of_ackBundlesOf {d : Diff.Block} {ab : AckBundles} (h : ackBundlesOf d = some ab) :
    .ackBundles ab ∈ d.coinbase.msgs := by
  obtain ⟨msg,hm,hab⟩ := List.exists_of_findSome?_eq_some h
  cases msg with
  | ackBundles ab' =>
    obtain rfl := Option.some.inj hab
    exact hm
  | _ => cases hab

theorem handleM4RepeatPrevious_failsOnly {parent : BlockHash} {prevDiff : Option Diff.Block}
    (ht : t.activeSidechains.Tables) (hp : ParentKnown t parent prevDiff) :
    FailsOnly Error.Rejects (handleM4RepeatPrevious t parent prevDiff) := by
  unfold handleM4RepeatPrevious
  split
  · exact .ok _
  · rename_i hz
    obtain ⟨d,hd⟩ := hp.stored hz
    refine .bind (.require (fun hn => by rw [hd] at hn; cases hn)) (fun d' hd' => ?_)
    rw [Fallible.require_ok,hd] at hd'
    obtain rfl := Option.some.inj hd'
    split
    · exact .pure _
    · rename_i ab hab
      refine .foldlM (fun _ _ => True) trivial (fun _ _ _ _ _ _ _ _ => trivial) ?_
      rintro done ⟨s,a⟩ rest d' hl -
      have hmem : (s,a) ∈ ab.actions.toList := by rw [hl]; simp
      have hact := hp.votes d hd ab (mem_of_ackBundlesOf hab) s
        ((FinMap.contains_iff _ _).mpr ⟨a,FinMap.mem_toList.mp hmem⟩)
      refine .bind (getPending_failsOnly ht hact) (fun p _ => ?_)
      cases a with
      | alarm positive => exact .pure _
      | upvote target others =>
        simp only
        split
        · exact .pure _
        · exact .pure _

theorem handleM4AckBundles_failsOnly {parent : BlockHash} {prevDiff : Option Diff.Block}
    (ht : t.activeSidechains.Tables) (hp : ParentKnown t parent prevDiff) (m4 : M4AckBundles) :
    FailsOnly Error.Rejects (handleM4AckBundles t parent prevDiff m4) := by
  cases m4 with
  | leadingBy50 => exact handleM4LeadingBy50_failsOnly ht
  | repeatPrevious => exact handleM4RepeatPrevious_failsOnly ht hp
  | oneByte upvotes => exact handleM4Votes_failsOnly ht
  | twoBytes upvotes =>
    simp only [handleM4AckBundles]
    split
    · exact .error rfl
    · exact handleM4Votes_failsOnly ht

end Votes

section Apply

variable {t : ConsensusDbs} {n : ℕ}

theorem upvotePending_succeeds {target : M6id} {others : List M6id} {p : PendingM6ids}
    {info : PendingM6idInfo} (hi : p.get? target = some info) (hmax : info.voteCount ≠ 0xFFFF) :
    ∃ q, AckBundleAction.upvotePending target others p = .ok q := by
  exact ⟨_,Fallible.bind_ok.mpr ⟨info,(Fallible.require_ok _ _ _).mpr hi,
    Fallible.bind_ok.mpr ⟨_,PendingM6idInfo.increment_ok.mpr ⟨hmax,rfl⟩,rfl⟩⟩⟩

theorem ackBundles_succeeds {d : AckBundles} {dbs : ActiveSidechainDbs} (h : d.Made dbs) :
    ∃ dbs', d.apply dbs = .ok dbs' := by
  obtain ⟨m,hm⟩ : ∃ m, FinMap.updateEach (.db .pendingM6ids) (fun _ a p => a.applyPending p)
      d.actions.toList dbs.pendingM6ids = .ok m := by
    refine FinMap.updateEach_succeeds (FinMap.nodup_keys d.actions) ?_
    intro s a hm
    obtain ⟨p,hp,ha⟩ := h s a (FinMap.mem_toList.mp hm)
    cases a with
    | alarm positive => exact ⟨p,_,hp,rfl⟩
    | upvote target others =>
      obtain ⟨-,info,hi,hmax⟩ := ha
      obtain ⟨q,hq⟩ := upvotePending_succeeds hi hmax
      exact ⟨p,q,hp,hq⟩
  exact ⟨_,by rw [AckBundles.apply_eq,hm]; rfl⟩

variable [Bitcoin] {h : BlockHandler} {parent : BlockHash} {prevDiff : Option Diff.Block}
  {msg : CoinbaseMessage} {e : Option CoinbaseMessageEvent}

theorem handled_succeeds {d : CoinbaseMsg} (hh : Handled h t n parent prevDiff msg e (some d)) :
    ∃ t', d.apply t n = .ok t' := by
  generalize hd : some d = od at hh
  cases hh with
  | m1Known | m2Unknown | m2SameBlock | m7 => cases hd
  | m1New =>
    obtain rfl := Option.some.inj hd
    exact ⟨_,rfl⟩
  | @m2 s dh sc pending earlier votes =>
    obtain rfl := Option.some.inj hd
    exact ⟨_,AckSidechainProposal.apply_ok.mpr ⟨sc,pending,votes,rfl⟩⟩
  | @m3 s m6id p active pending new =>
    obtain rfl := Option.some.inj hd
    exact ⟨_,Fallible.bind_ok.mpr ⟨_,withPendingWithdrawals_ok.mpr ⟨p,_,pending,rfl,rfl⟩,rfl⟩⟩
  | @m4 m4 ab votes =>
    split at hd
    · cases hd
    · obtain rfl := Option.some.inj hd
      obtain ⟨a,ha⟩ := ackBundles_succeeds (made_handleM4AckBundles votes)
      exact ⟨_,Fallible.bind_ok.mpr ⟨a,ha,rfl⟩⟩

omit [Bitcoin] in
theorem failedM6ids_succeeds {dbs : ActiveSidechainDbs} {d : FailedM6ids} (ht : dbs.Tables)
    (hd : h.handleFailedM6ids dbs n = .ok d) : ∃ dbs', d.apply dbs = .ok dbs' := by
  obtain ⟨d',hd',hget⟩ : ∃ d, h.handleFailedM6ids dbs n = .ok d ∧
      ∀ s, d.failed.get? s = (dbs.pendingM6ids.get? s).bind (h.failedOf n) := handleFailedM6ids_ok ht
  obtain rfl := Except.ok.inj (hd.symm.trans hd')
  obtain ⟨m,hm⟩ : ∃ m, FinMap.updateEach (.db .pendingM6ids)
      (fun _ f p => FailedM6ids.removeFailedWithdrawals f p) d.failed.toList dbs.pendingM6ids =
        .ok m := by
    refine FinMap.updateEach_succeeds (FinMap.nodup_keys d.failed) ?_
    intro s f hf
    have hs := hget s
    rw [FinMap.mem_toList.mp hf] at hs
    obtain ⟨p,hp,hfail⟩ := Option.bind_eq_some_iff.mp hs.symm
    obtain ⟨q,hq,-⟩ := FailedM6ids.removeFailedWithdrawals_eq (h.expired n) p
    unfold failedOf at hfail
    split at hfail
    · cases hfail
    · obtain rfl := Option.some.inj hfail
      exact ⟨p,q,hp,hq⟩
  exact ⟨_,by rw [FailedM6ids.apply_eq,hm]; rfl⟩

end Apply

section Coinbase

variable {h : BlockHandler} {t t₀ : ConsensusDbs} {n : ℕ} {parent : BlockHash}
  {prevDiff : Option Diff.Block} {msgs : List CoinbaseMessage} {ds : List CoinbaseMsg}

/-- The votes of every pending proposal can be counted up. -/
def VotesLow (t : ConsensusDbs) : Prop :=
  EachProposal t (fun _ sc => sc.status.voteCount.toNat+1 < 0xFFFF)

theorem handleM2AckSidechain_failsOnly {s : SidechainNumber} {dh : DescriptionHash}
    (hv : EachProposal t (fun _ sc => sc.status.voteCount ≠ 0xFFFF)) {P : Error → Prop} :
    FailsOnly P (h.handleM2AckSidechain t n s dh) := by
  unfold handleM2AckSidechain
  simp only
  split
  · exact .ok _
  · rename_i sc hsc
    split
    · exact .ok _
    · exact .bind (.of_ok (incrementVotes_ok.mpr ⟨hv _ sc hsc,rfl⟩)) (fun _ _ => .pure _)

variable [Bitcoin]

theorem handleCoinbaseMessage_failsOnly {accepted : BmmCommitments} (hw : t.Wf)
    (hv : EachProposal t (fun _ sc => sc.status.voteCount ≠ 0xFFFF))
    (hp : ParentKnown t parent prevDiff) (msg : CoinbaseMessage) :
    FailsOnly Error.Rejects (h.handleCoinbaseMessage t n parent prevDiff accepted msg) := by
  cases msg with
  | m1ProposeSidechain s description =>
    simp only [handleCoinbaseMessage]
    split
    · exact .ok _
    · exact .ok _
  | m2AckSidechain s dh => exact .bind (handleM2AckSidechain_failsOnly hv) (fun _ _ => .pure _)
  | m3ProposeBundle s m6id =>
    refine .bind ?_ (fun _ _ => .pure _)
    refine .bind (.ensure (fun _ => rfl)) (fun _ hact => ?_)
    refine .bind (getPending_failsOnly hw.tables ((Fallible.ensure_ok _ _ _).mp hact)) ?_
    intro p _
    exact .bind (.ensure (fun _ => rfl)) (fun _ _ => .pure _)
  | m4AckBundles m4 =>
    exact .bind (handleM4AckBundles_failsOnly hw.tables hp m4) (fun _ _ => .pure _)
  | m7BmmAccept s commitment =>
    simp only [handleCoinbaseMessage]
    split
    · exact .error rfl
    · exact .ok _

omit [Bitcoin] in
theorem ParentKnown.mono (hp : ParentKnown t₀ parent prevDiff)
    (hmono : ∀ s, t₀.activeSidechains.sidechain.contains s = true →
      t.activeSidechains.sidechain.contains s = true) : ParentKnown t parent prevDiff :=
  ⟨hp.stored,fun d hd ab hab s hs => hmono s (hp.votes d hd ab hab s hs)⟩

theorem votes_ne_max (hI : ProposalsRead h n t₀ msgs t) (hlow : VotesLow t₀) :
    EachProposal t (fun _ sc => sc.status.voteCount ≠ 0xFFFF) := by
  intro id sc hsc hmax
  have hnat : sc.status.voteCount.toNat = 65535 := by rw [hmax]; rfl
  rcases hI.proposals id sc hsc with ⟨hst,-⟩ | ⟨sc₀,hsc₀,hsc'⟩
  · rw [hst] at hnat
    cases hnat
  · have h₀ := hlow id sc₀ hsc₀
    split at hsc'
    · rename_i hm
      have hacked : sc.status.voteCount = sc₀.status.voteCount+1 := by rw [hsc']; rfl
      rw [hacked,toNat_add_one ((hI.acked id hm).2 sc₀ hsc₀)] at hnat
      omega
    · rw [hsc'] at hnat
      omega

theorem messageEvent_failsOnly {event : Option CoinbaseMessageEvent}
    {d : Option CoinbaseMsg} {msg : CoinbaseMessage} {proposals : FinMap SidechainProposalId ℕ}
    (hh : Handled h t n parent prevDiff msg event d)
    (hidx : ∀ s description, msg = .m1ProposeSidechain s description →
      proposals.contains ⟨s,sha256d description⟩ = true) {P : Error → Prop} :
    FailsOnly P (messageEvent proposals event) := by
  cases hh with
  | @m1New s description new =>
    obtain ⟨vout,hv⟩ := (FinMap.contains_iff _ _).mp (hidx s description rfl)
    exact .bind (.of_ok ((Fallible.require_ok _ _ _).mpr hv)) (fun _ _ => .pure _)
  | _ => exact .ok _

/-- The coinbase phase fails only where its outputs are read or where a message is handled. -/
theorem connectCoinbase_fails {coinbase : Transaction} {P : Error → Prop} (hw : t.Wf)
    (hscan : FailsOnly P (scanCoinbase coinbase))
    (hmsg : ∀ done msg rest t' ds accepted, coinbase.messages = done++msg::rest →
      Ran h n parent prevDiff t done t' ds →
      accepted.entries = done.filterMap CoinbaseMessage.m7Commitment →
      FailsOnly P (h.handleCoinbaseMessage t' n parent prevDiff accepted msg)) :
    FailsOnly P (h.connectCoinbase t n parent prevDiff coinbase) := by
  refine .bind hscan (fun scan hscan => ?_)
  obtain ⟨hmsgs,-⟩ := scanCoinbase_ok hscan
  refine .bind ?_ (fun acc hacc => ?_)
  · refine .foldlM (fun done acc => Ran h n parent prevDiff t (done.map Prod.fst) acc.dbs acc.diffs ∧
      acc.acceptedBmmRequests.entries = (done.map Prod.fst).filterMap CoinbaseMessage.m7Commitment)
      ⟨.start,rfl⟩ ?_ ?_
    · rintro done m rest acc acc' _ ⟨hr,haccepted⟩ hc
      obtain ⟨event,events,-,-,hcase⟩ := connectMessage_ok hc
      rw [connectMessage_accepted hc,haccepted,List.map_append,List.map_singleton,
        List.filterMap_append]
      refine ⟨?_,by cases hm : m.1.m7Commitment <;> simp [hm]⟩
      rcases hcase with ⟨hh,hd,hds⟩ | ⟨d,hh,ha,hds⟩
      · rw [hd,hds]; exact .ignored hr hh
      · rw [hds]; exact .applied hr hh ha
    · rintro done m rest acc hl ⟨hr,haccepted⟩
      have hsplit : coinbase.messages = done.map Prod.fst++m.1::rest.map Prod.fst := by
        rw [← hmsgs,hl,List.map_append,List.map_cons]
      refine .bind (hmsg _ m.1 _ acc.dbs acc.diffs _ hsplit hr haccepted) ?_
      rintro ⟨event,d,accepted⟩ hh
      have hh := handled_of_handle hh
      refine .bind (messageEvent_failsOnly hh ?_) (fun events _ => ?_)
      · intro s description hm
        refine scanCoinbase_proposals hscan ?_
        rw [hsplit,← hm]
        simp
      · cases d with
        | none => exact .ok _
        | some d =>
          obtain ⟨t',ht'⟩ := handled_succeeds hh
          exact .bind (.of_ok ht') (fun _ _ => .pure _)
  rw [connectMissingM4_eq,Fallible.ok_bind]
  have hw₁ := ran_wf (ran_foldlM hacc).1 hw
  obtain ⟨d,hd,-⟩ : ∃ d, h.handleFailedM6ids acc.dbs.activeSidechains n = .ok d ∧ _ :=
    handleFailedM6ids_ok hw₁.tables
  obtain ⟨a,ha⟩ := failedM6ids_succeeds hw₁.tables hd
  refine .bind (.of_ok hd) (fun d' hd' => ?_)
  obtain rfl := Except.ok.inj (hd.symm.trans hd')
  exact .bind (.of_ok ha) (fun _ _ => .pure _)

theorem scanCoinbase_failsOnly {coinbase : Transaction} :
    FailsOnly Error.Rejects (scanCoinbase coinbase) := by
  refine .foldlM (fun _ _ => True) trivial (fun _ _ _ _ _ _ _ _ => trivial) ?_
  intro done e rest acc _ _
  unfold scanOutput
  split
  · exact .ok _
  · exact .bind (.mapError (P := fun _ => True) (fun _ _ => trivial) (fun _ _ => rfl))
      (fun _ _ => .pure _)

theorem votes_ne_max_read {done rest : List CoinbaseMessage} (hone : OneEach (done++rest))
    (hr : Ran h n parent prevDiff t done t₀ ds)
    (hlt : EachProposal t (fun _ sc => sc.status.proposalHeight < n)) (hlow : VotesLow t) :
    EachProposal t₀ (fun _ sc => sc.status.voteCount ≠ 0xFFFF) := by
  have hnodup : (done.filterMap CoinbaseMessage.m2Slot).Nodup := by
    have hm2 := hone.m2
    rw [List.filterMap_append] at hm2
    exact (List.nodup_append.mp hm2).1
  exact votes_ne_max (ran_proposals hr hlt hnodup) hlow

theorem connectCoinbase_failsOnly {coinbase : Transaction} (hw : t.Wf)
    (hlt : EachProposal t (fun _ sc => sc.status.proposalHeight < n)) (hlow : VotesLow t)
    (hp : ParentKnown t parent prevDiff) :
    FailsOnly Error.Rejects (h.connectCoinbase t n parent prevDiff coinbase) := by
  cases hscan : scanCoinbase coinbase with
  | error e =>
    refine .bind scanCoinbase_failsOnly (fun scan hs => ?_)
    rw [hscan] at hs
    cases hs
  | ok scan =>
    refine connectCoinbase_fails hw scanCoinbase_failsOnly ?_
    intro done msg rest t' ds accepted hsplit hr _
    have hone := (scanCoinbase_ok hscan).2
    rw [hsplit] at hone
    exact handleCoinbaseMessage_failsOnly (ran_wf hr hw) (votes_ne_max_read hone hr hlt hlow)
      (hp.mono (ran_frame hr).2) msg

end Coinbase

section Txs

variable {h : BlockHandler} {dbs : ActiveSidechainDbs} {u : UnconsolidatedCtips}
  {tx : Transaction}

/-- The errors of a transaction. Unless `A` holds, it may spend two ctips of a slot. -/
def RejectsTx (A : Prop) (e : Error) : Prop := e.Rejects ∨ (¬ A ∧ e = .panic .secondConsolidatedInput)

theorem fillOutput_failsOnly {P : Error → Prop} (hP : ∀ e : Error, e.Rejects → P e) {txid : Txid}
    {res : FinMap SidechainNumber TxCtipsInfo} {e : TxOut × ℕ} :
    FailsOnly P (h.fillOutput dbs txid res e) := by
  unfold fillOutput
  split
  · exact .ok _
  · split
    · exact .ok _
    · split
      · exact .error (hP _ rfl)
      · exact .ok _

variable [Bitcoin]

/-- Reading the inputs finds at most one ctip of each slot, if there is only one. -/
theorem fillCtips_failsOnly {A : Prop}
    (hone : A → ∀ s, (dbs.consolidatedInputs s tx.input).length ≤ 1) :
    FailsOnly (RejectsTx A) (h.fillCtips dbs u tx) := by
  refine .bind (.foldlM (fun _ _ => True) trivial (fun _ _ _ _ _ _ _ _ => trivial)
    (fun _ _ _ _ _ _ => fillOutput_failsOnly (fun e he => .inl he))) (fun res₀ hres₀ => ?_)
  have hinit := outputsRead_inputsRead_init (u := u) (outputsRead_of_fill hres₀)
  refine .foldlM (fun done res => InputsRead dbs u res₀ done res) hinit
    (fun done i rest res res' _ hI hstep => inputsRead_step hI hstep) ?_
  intro done i rest res hl hI
  unfold fillInput
  simp only
  split
  · rename_i s v n hidx
    refine .bind (.require (fun _ => .inl rfl)) (fun info hinfo => ?_)
    refine .bind (.ensure (fun hsome => ?_)) (fun _ _ => .pure _)
    by_cases hA : A
    · exfalso
      rw [Fallible.require_ok] at hinfo
      obtain ⟨hget,-,-⟩ := hI s
      rw [hinfo] at hget
      obtain ⟨info₀,-,rfl⟩ := Option.map_eq_some_iff.mp hget.symm
      have hcon : dbs.consolidatedInput s i = some ⟨i.previousOutput,v⟩ := by
        simp [consolidatedInput,hidx]
      have hlen := hone hA s
      rw [hl,consolidatedInputs,List.filterMap_append,List.filterMap_cons_some hcon,
        List.length_append,List.length_cons] at hlen
      have hnil : dbs.consolidatedInputs s done = [] :=
        List.eq_nil_of_length_eq_zero (by unfold consolidatedInputs; omega)
      simp [addInputs,hnil] at hsome
    · exact .inr ⟨hA,rfl⟩
  · split
    · exact .bind (.require (fun _ => .inl rfl)) (fun _ _ => .pure _)
    · exact .ok _

omit [Bitcoin] in
theorem checkInputs_failsOnly (ctips : List OutPoint) (ins : List TxIn) :
    FailsOnly Error.Rejects (checkInputs ctips ins) := by
  induction ins with
  | nil => exact .ok _
  | cons i ins ih => exact .bind (.ensure (fun _ => rfl)) (fun _ _ => ih)

theorem computeM6id_slot {op : OpDrivechain} {v : ℕ} {m6id : M6id} {s : SidechainNumber}
    (hc : op.computeM6id tx v = .ok (m6id,s)) :
    ∃ out, tx.output[0]? = some out ∧ op.parse out.scriptPubkey = some s := by
  unfold OpDrivechain.computeM6id at hc
  cases hout : tx.output with
  | nil => rw [hout] at hc; cases hc
  | cons out payouts =>
    simp only [hout,Fallible.bind_ok,Fallible.require_ok,Fallible.pure_ok,Prod.mk.injEq] at hc
    obtain ⟨s',hs',_,-,_,-,_,-,_,-,-,rfl⟩ := hc
    exact ⟨out,rfl,hs'⟩

theorem makeM6_failsOnly {s : SidechainNumber} {info : TxCtipsInfo}
    (hi : slotInfo h dbs u tx s = some info) :
    FailsOnly Error.Rejects (h.makeM6 dbs tx s info) := by
  refine .bind (.require (fun _ => rfl)) (fun c _ => ?_)
  refine .bind (checkInputs_failsOnly _ _) (fun _ _ => ?_)
  refine .bind (.ensure (fun _ => rfl)) (fun _ hvout => ?_)
  refine .bind ?_ ?_
  · refine .bind (.mapError (P := fun _ => True) (fun _ _ => trivial) (fun _ _ => rfl)) ?_
    intro r _
    refine .bind (.require (fun _ => rfl)) (fun p _ => ?_)
    refine .bind (.require (fun _ => rfl)) (fun i _ => ?_)
    exact .bind (.ensure (fun _ => rfl)) (fun _ _ => .pure _)
  · rintro ⟨m6id,s',index,pinfo⟩ hm6
    refine .bind (.ensure (fun hne => ?_)) (fun _ _ => .pure _)
    exfalso
    obtain ⟨⟨m,s''⟩,hid,hm6⟩ := Fallible.bind_ok.mp hm6
    obtain ⟨p,-,hm6⟩ := Fallible.bind_ok.mp hm6
    obtain ⟨i,-,hm6⟩ := Fallible.bind_ok.mp hm6
    obtain ⟨_,-,hm6⟩ := Fallible.bind_ok.mp hm6
    simp only [Fallible.pure_ok,Prod.mk.injEq] at hm6
    obtain ⟨-,rfl,-⟩ := hm6
    obtain ⟨out,hout,hparse⟩ := computeM6id_slot ((Fallible.mapError_ok _ _ _).mp hid)
    obtain ⟨-,n,out',hout',hparse',hinfo,-⟩ := slotInfo_output hi
    rw [Fallible.ensure_ok,decide_eq_true_eq,hinfo] at hvout
    have hn : n = 0 := hvout
    rw [hn,hout] at hout'
    obtain rfl := Option.some.inj hout'
    obtain rfl := Option.some.inj (hparse.symm.trans hparse')
    simp at hne

theorem makeDeposit_failsOnly {s : SidechainNumber} {info : TxCtipsInfo} :
    FailsOnly Error.Rejects (makeDeposit dbs tx s info) := by
  unfold makeDeposit
  split
  · refine .bind (.require (fun _ => rfl)) (fun out _ => ?_)
    exact .bind (.require (fun _ => rfl)) (fun _ _ => .pure _)
  · exact .ok _

theorem classify_failsOnly {s : SidechainNumber} {info : TxCtipsInfo} {n : ℕ}
    {res : Option DepositsOrSuccessfulWithdrawal} (hi : slotInfo h dbs u tx s = some info) :
    FailsOnly Error.Rejects (h.classify dbs tx n res s info) := by
  refine .bind (.ensure (fun _ => rfl)) (fun _ _ => ?_)
  split
  · refine .bind (makeM6_failsOnly hi) (fun d _ => ?_)
    unfold addM6
    split
    · exact .ok _
    · exact .error rfl
    · exact .error rfl
  · refine .bind makeDeposit_failsOnly (fun d _ => ?_)
    unfold addM5
    split
    · exact .ok _
    · exact .ok _
    · exact .error rfl

theorem handleM5M6_failsOnly {A : Prop}
    (hone : A → ∀ s, (dbs.consolidatedInputs s tx.input).length ≤ 1) :
    FailsOnly (RejectsTx A) (h.handleM5M6 dbs u tx) := by
  refine .bind (fillCtips_failsOnly hone) (fun infos hinfos => ?_)
  obtain ⟨-,hget⟩ := fillCtips_ok.mp hinfos
  refine .foldlM (fun _ _ => True) trivial (fun _ _ _ _ _ _ _ _ => trivial) ?_
  rintro done ⟨s,info⟩ rest acc hl -
  have hmem : (s,info) ∈ infos.toList := by rw [hl]; simp
  have hi : slotInfo h dbs u tx s = some info := by
    rw [← hget s]
    exact FinMap.mem_toList.mp hmem
  have hc : FailsOnly (RejectsTx A) (h.classify dbs tx infos.toList.length acc.1 s info) :=
    fun e he => .inl (classify_failsOnly hi e he)
  exact .bind hc (fun _ _ => .pure _)

omit [Bitcoin] in
theorem handleM8_failsOnly {accepted : Option BmmCommitments} {parent : BlockHash} :
    FailsOnly Error.Rejects (handleM8 tx accepted parent) := by
  have hrest : ∀ (notAccepted expired : Prop) [Decidable notAccepted] [Decidable expired],
      FailsOnly Error.Rejects (if notAccepted then .error .notAcceptedByMiners
        else if expired then .error .bmmRequestExpired else .ok true) := by
    intro notAccepted expired _ _
    by_cases hn : notAccepted
    · rw [if_pos hn]; exact .error rfl
    · rw [if_neg hn]
      by_cases he : expired
      · rw [if_pos he]; exact .error rfl
      · rw [if_neg he]; exact .ok true
  unfold handleM8
  cases parseM8Tx tx with
  | none => exact .ok _
  | some request => exact hrest _ _

theorem txDiff_succeeds {r : DepositsOrSuccessfulWithdrawal × UnconsolidatedCtips}
    (hr : h.handleM5M6 dbs u tx = .ok (some r.1,r.2)) {event : TransactionEvent} {d : Diff.Tx}
    (hd : transactionResult tx (some r.1) = some (event,d)) : ∃ dbs', d.apply dbs = .ok dbs' := by
  obtain ⟨infos,-,hout,-⟩ := handleM5M6_ok hr
  obtain ⟨r,u'⟩ := r
  cases r with
  | m5Deposits deposits d' =>
    simp only [transactionResult,Option.some.injEq,Prod.mk.injEq] at hd
    obtain ⟨-,rfl⟩ := hd
    exact ⟨_,rfl⟩
  | m6Withdrawal s m6id n d' =>
    simp only [transactionResult,Option.some.injEq,Prod.mk.injEq] at hd
    obtain ⟨-,rfl⟩ := hd
    obtain ⟨info,-,-,hm,-,-⟩ := hout
    obtain ⟨c,p,hw⟩ := makeM6_ok.mp hm
    refine ⟨_,M6.apply_ok.mpr ⟨p,?_,rfl⟩⟩
    rw [hw.slot]
    exact hw.pending

/-- A transaction is applied if the treasuries allow it and its request is accepted. -/
theorem connectTx_iff {accepted : BmmCommitments} {parent hash : BlockHash} {acc : TxState} :
    (∃ acc', h.connectTx accepted parent hash acc tx = .ok acc') ↔
      (∃ r, h.handleM5M6 acc.dbs acc.unconsolidatedCtips tx = .ok r) ∧
      (∃ r, handleM8 tx (some accepted) parent = .ok r) ∧
      ∃ slots, claimBmmSlot acc.bmmRequestSlots tx = .ok slots := by
  constructor
  · rintro ⟨acc',hc⟩
    obtain ⟨⟨handled,u⟩,hh,hc⟩ := Fallible.bind_ok.mp hc
    rw [Fallible.mapError_ok] at hh
    obtain ⟨r,hr,hh⟩ := Fallible.bind_ok.mp hh
    obtain ⟨b,hb,-⟩ := Fallible.bind_ok.mp hh
    obtain ⟨slots,hslots,-⟩ := Fallible.bind_ok.mp hc
    exact ⟨⟨r,hr⟩,⟨b,hb⟩,slots,hslots⟩
  · rintro ⟨⟨⟨res,u⟩,hr⟩,⟨b,hb⟩,slots,hslots⟩
    have hhandled : h.handleTransaction acc.dbs (some accepted) acc.unconsolidatedCtips parent tx =
        .ok (transactionResult tx res,u) := by
      simp only [handleTransaction,hr,hb,Fallible.ok_bind]
      rfl
    unfold connectTx
    simp only [hhandled,Except.mapError,Fallible.ok_bind,hslots]
    cases hres : transactionResult tx res with
    | none => exact ⟨_,rfl⟩
    | some e =>
      obtain ⟨event,d⟩ := e
      cases res with
      | none => cases hres
      | some res =>
        obtain ⟨dbs',happly⟩ := txDiff_succeeds (r := (res,u)) hr hres
        simp only [TxState.record,happly,Fallible.ok_bind]
        exact ⟨_,rfl⟩

theorem connectTx_failsOnly {A : Prop} {accepted : BmmCommitments} {parent hash : BlockHash}
    {acc : TxState} (hone : A → ∀ s, (acc.dbs.consolidatedInputs s tx.input).length ≤ 1) :
    FailsOnly (fun e => e.Rejects ∨ (¬ A ∧ e = .transaction tx.computeTxid hash
      (.panic .secondConsolidatedInput))) (h.connectTx accepted parent hash acc tx) := by
  refine .bind (.mapError (P := RejectsTx A) ?_ ?_) ?_
  · refine .bind (handleM5M6_failsOnly hone) (fun r _ => ?_)
    refine .bind (fun e he => .inl (handleM8_failsOnly e he)) (fun _ _ => .pure _)
  · rintro e (he | ⟨hA,rfl⟩)
    · exact .inl he
    · exact .inr ⟨hA,rfl⟩
  · rintro ⟨handled,u'⟩ hh
    refine .bind ?_ (fun slots _ => ?_)
    · unfold claimBmmSlot
      split
      · exact .ok _
      · split
        · exact .error (.inl rfl)
        · exact .ok _
    · rw [Fallible.mapError_ok] at hh
      obtain ⟨⟨res,u''⟩,hm,hh⟩ := Fallible.bind_ok.mp hh
      obtain ⟨_,-,hh⟩ := Fallible.bind_ok.mp hh
      simp only [Fallible.pure_ok,Prod.mk.injEq] at hh
      obtain ⟨rfl,rfl⟩ := hh
      cases res with
      | none => exact .ok _
      | some r =>
        cases hr : transactionResult tx (some r) with
        | none => exact .ok _
        | some e =>
          obtain ⟨dbs',hd⟩ := txDiff_succeeds (r := (r,u'')) (d := e.2) hm hr
          exact .bind (.of_ok hd) (fun _ _ => .pure _)

end Txs

section Block

variable {h : BlockHandler} {V : Chain → Block → Prop} {stale : Prop}
  {D : BlockHash → Option Diff.Block} {c : Chain} {t t₂ : ConsensusDbs} {b : Block}
  {coinbase tx : Transaction} {txs done rest : List Transaction} {parent hash : BlockHash}
  {prevDiff : Option Diff.Block} {accepted : BmmCommitments} {events : List BlockEvent}
  {d : Diff.Coinbase} {acc : TxState}

theorem consolidatedInputs_sublist (dbs : ActiveSidechainDbs) (s : SidechainNumber) (l : List TxIn) :
    ((dbs.consolidatedInputs s l).map Ctip.outpoint).Sublist (l.map TxIn.previousOutput) := by
  induction l with
  | nil => exact .slnil
  | cons i l ih =>
    unfold consolidatedInputs at ih ⊢
    cases hc : dbs.consolidatedInput s i with
    | none =>
      rw [List.filterMap_cons_none hc,List.map_cons]
      exact ih.cons _
    | some ctip =>
      have ho : ctip.outpoint = i.previousOutput := by
        unfold consolidatedInput at hc
        split at hc
        · split at hc
          · obtain rfl := Option.some.inj hc
            rfl
          · cases hc
        · cases hc
      rw [List.filterMap_cons_some hc,List.map_cons,List.map_cons,ho]
      exact ih.cons_cons _

variable [Bitcoin]

omit [Bitcoin] in
/-- A transaction spends at most one ctip of each slot, if all ctips that it spends
are unspent: only the current one is, and it can be spent only once. -/
theorem Backed.single_unspent {op : OpDrivechain} {L : Utxos} {M T : Txid → Prop}
    {dbs : ActiveSidechainDbs} (hb : Backed op L M T dbs) (hnodup : tx.spent.Nodup)
    (hin : ∀ o ∈ tx.spent, dbs.ctipOutpointToValueSeq.contains o = true → ∃ out, L.get? o = some out)
    (s : SidechainNumber) : (dbs.consolidatedInputs s tx.input).length ≤ 1 := by
  have hsub := consolidatedInputs_sublist dbs s tx.input
  have hone : ((dbs.consolidatedInputs s tx.input).map Ctip.outpoint).Nodup := hnodup.sublist hsub
  have hcur : ∀ a ∈ dbs.consolidatedInputs s tx.input, dbs.ctip.get? s = some a := by
    intro a ha
    obtain ⟨i,hi,hc⟩ := List.mem_filterMap.mp ha
    unfold consolidatedInput at hc
    cases hidx : dbs.ctipOutpointToValueSeq.get? i.previousOutput with
    | none => rw [hidx] at hc; cases hc
    | some e =>
      obtain ⟨s',v,n⟩ := e
      simp only [hidx] at hc
      split at hc
      · rename_i hs
        subst hs
        obtain rfl := Option.some.inj hc
        obtain ⟨out,hout⟩ := hin i.previousOutput (List.mem_map.mpr ⟨i,hi,rfl⟩)
          ((FinMap.contains_iff _ _).mpr ⟨_,hidx⟩)
        exact hb.current _ _ _ _ _ hidx hout
      · cases hc
  rcases hl : dbs.consolidatedInputs s tx.input with _ | ⟨a,_ | ⟨a',l⟩⟩
  · simp
  · simp
  · exfalso
    rw [hl] at hcur hone
    obtain rfl := Option.some.inj ((hcur a (by simp)).symm.trans (hcur a' (by simp)))
    simp at hone

theorem Backed.single_consolidated {op : OpDrivechain} {L L' : Utxos} {M T : Txid → Prop}
    {dbs : ActiveSidechainDbs} (hb : Backed op L M T dbs) (hL : L.applyTx tx = some L')
    (s : SidechainNumber) : (dbs.consolidatedInputs s tx.input).length ≤ 1 := by
  obtain ⟨hnodup,hin,-⟩ := Utxos.applyTx_some hL
  exact hb.single_unspent hnodup (fun o ho _ => hin o ho) s

/-- Every transaction of a valid block meets tables that agree with the unspent
outputs, as far as the block is accepted. -/
theorem prefix_backed (hv : UtxoValid c b) (htx : b.txdata = coinbase::txs) (hw : t.Wf)
    (hcb : ChainBacked h c t) (hle : h.params.bip300ActivationHeight ≤ c.length)
    (hcon : h.connectCoinbase t c.length parent prevDiff coinbase = .ok (t₂,accepted,events,d))
    (hsplit : txs = done++tx::rest)
    (hdone : done.foldlM (h.connectTx accepted parent hash)
      ⟨t₂.activeSidechains,.default,[],events,[]⟩ = .ok acc) :
    ∃ L L', StepBacked h c coinbase done acc L ∧ L.applyTx tx = some L' := by
  obtain ⟨L,hL,hback⟩ := hcb
  obtain ⟨L',hL'⟩ := hv.spends
  have happly : txs.foldlM Utxos.applyTx (L.add coinbase) = some L' := by
    simpa [utxos,hL,Utxos.applyBlock,htx] using hL'
  rw [hsplit,List.foldlM_append] at happly
  obtain ⟨L₁,h₁,happly⟩ := Option.bind_eq_some_iff.mp happly
  rw [List.foldlM_cons] at happly
  obtain ⟨L₂,h₂,-⟩ := Option.bind_eq_some_iff.mp happly
  obtain ⟨scan,t₁,hc⟩ := connectCoinbase_ok hcon
  have hcoin : coinbase.computeTxid ∉ c.txids := hv.txids.coinbase coinbase (by simp [htx])
  have hge : ¬ c.length < h.params.bip300ActivationHeight := by omega
  have hstart : StepBacked h c coinbase [] ⟨t₂.activeSidechains,.default,[],events,[]⟩
      (L.add coinbase) := backed_coinbase hback hcoin (hc.frame hw).1 (hc.wf hw).2.tables rfl
  obtain ⟨-,hend,-⟩ := stepsFrom_spec (fun done acc L => StepBacked h c coinbase done acc L) []
    hdone h₁ hstart (by
      intro done₁ tx' rest' a a' l l' hsplit' hI hfa hla
      rw [List.nil_append] at hI ⊢
      have hat' : txs = done₁++tx'::(rest'++tx::rest) := by
        rw [hsplit,hsplit',List.append_assoc,List.cons_append]
      have hnew := hv.new_tx htx hat'
      have hat : h.connectTxAt c.length accepted parent hash a tx' = .ok a' := by
        rw [connectTxAt,if_neg hge]
        exact hfa
      exact stepBacked_step hI hnew (fun hlt => absurd hlt hge) hat hla)
  exact ⟨L₁,L₂,hend,h₂⟩

/-- An error of a block. Unless `A` holds, one of its transactions may spend two
ctips of a slot. -/
def RejectsBlock (A : Prop) (e : Error) : Prop :=
  e.Rejects ∨ (¬ A ∧ ∃ txid hash, e = .transaction txid hash (.panic .secondConsolidatedInput))

/-- A block on a state that can be reached is rejected for reasons that lie in it. -/
theorem processBlock_failsOnly {A : Prop} (hA : A → UtxoValid c b ∧ ChainBacked h c t)
    (htx : b.txdata = coinbase::txs) (hw : t.Wf)
    (hlt : EachProposal t (fun _ sc => sc.status.proposalHeight < c.length)) (hlow : VotesLow t)
    (hp : ParentKnown t parent prevDiff) :
    FailsOnly (RejectsBlock A) (h.processBlock t c.length parent hash prevDiff coinbase txs) := by
  unfold processBlock
  split
  · exact .ok _
  rename_i hge
  have hcoin : FailsOnly Error.Rejects (h.connectCoinbase t c.length parent prevDiff coinbase) :=
    connectCoinbase_failsOnly hw hlt hlow hp
  refine .bind (fun e he => .inl (hcoin e he)) ?_
  rintro ⟨t₂,accepted,events,d⟩ hcon
  refine .bind ?_ (fun _ _ => .pure _)
  refine .foldlM (fun done acc => done.foldlM (h.connectTx accepted parent hash)
    ⟨t₂.activeSidechains,.default,[],events,[]⟩ = .ok acc) rfl ?_ ?_
  · intro done tx rest acc acc' _ hdone hstep
    rw [List.foldlM_append,hdone,Fallible.ok_bind,List.foldlM_cons,hstep]
    rfl
  · intro done tx rest acc hsplit hdone
    have hone : A → ∀ s, (acc.dbs.consolidatedInputs s tx.input).length ≤ 1 := by
      intro ha
      obtain ⟨hv,hcb⟩ := hA ha
      obtain ⟨L,L',hb,hL⟩ := prefix_backed hv htx hw hcb (by omega) hcon hsplit hdone
      exact hb.single_consolidated hL
    intro e he
    rcases connectTx_failsOnly hone e he with hr | ⟨ha,rfl⟩
    · exact .inl hr
    · exact .inr ⟨ha,_,_,rfl⟩

/-- The slots that the messages vote in are active afterwards. -/
theorem ran_votesActive {n : ℕ} {t₀ : ConsensusDbs} {msgs : List CoinbaseMessage}
    {ds : List CoinbaseMsg} (hr : Ran h n parent prevDiff t₀ msgs t ds) (hw : t₀.Wf) (ab : AckBundles)
    (hab : .ackBundles ab ∈ ds) (s : SidechainNumber) (hs : ab.actions.contains s = true) :
    t.activeSidechains.sidechain.contains s = true := by
  induction hr with
  | start => cases hab
  | ignored _ _ ih => exact ih hab
  | @applied msgs t t' ds msg e d hr hh ha ih =>
    have hgrow : ∀ s, t.activeSidechains.sidechain.contains s = true →
        t'.activeSidechains.sidechain.contains s = true := (message_frame ha).2
    rcases List.mem_append.mp hab with hab | hab
    · exact hgrow s (ih hab)
    · obtain rfl := List.mem_singleton.mp hab
      refine hgrow s ?_
      generalize hod : some (CoinbaseMsg.ackBundles ab) = od at hh
      cases hh with
      | m1Known | m2Unknown | m2SameBlock | m7 => cases hod
      | m1New | m2 | m3 => cases Option.some.inj hod
      | @m4 m4 ab' votes =>
        split at hod
        · cases hod
        · obtain rfl := CoinbaseMsg.ackBundles.inj (Option.some.inj hod)
          obtain ⟨a,ha⟩ := (FinMap.contains_iff _ _).mp hs
          obtain ⟨p,hp,-⟩ := made_handleM4AckBundles votes s a ha
          rw [← (ran_wf hr hw).tables.pending s]
          exact (FinMap.contains_iff _ _).mpr ⟨p,hp⟩

theorem Grown.votesActive (hg : Grown h V False D (b::c) t) :
    ∃ d, D b.blockHash = some d ∧ VotesActive t d := by
  cases hg with
  | base hb => exact absurd (hb.empty id).1 (by simp)
  | @connect _ t₀ _ _ coinbase txs res hg hv ha hs hl =>
    refine ⟨res.diff,hs,?_⟩
    intro ab hab s hsab
    obtain ⟨⟨i,hi,-⟩,-⟩ := hl
    rw [hi]
    rcases processBlock_ok ha.processed with
      ⟨-,rfl⟩ | ⟨-,scan,t₁,t₂,accepted,events,d,acc,-,hc,hf,rfl⟩
    · cases hab
    · have hw := hg.wf.1
      have hsc := (foldlM_connectTx (P := False) (T := fun _ => False) rfl hf (hc.wf hw).2.tables
        False.elim).2.1
      have hact := ran_votesActive hc.ran hw ab hab s hsab
      rw [← (hc.frame hw).2.1] at hact
      simp only [ActiveSidechainDbs.setIndex,hsc]
      exact hact

theorem Synced.parentKnown {dbs : Dbs} (hs : Synced h V False dbs c) :
    ParentKnown dbs.toConsensusDbs c.parentHash (dbs.blockHashes.diff.get? c.parentHash) := by
  cases c with
  | nil =>
    refine ⟨fun hne => absurd rfl hne,fun d hd => ?_⟩
    obtain ⟨hd',hhd'⟩ := hs.diffs.header _ d hd
    exact absurd (hs.headers.hash _ hd' hhd') hd'.blockHash_ne
  | cons b c =>
    obtain ⟨d,hd,hv⟩ := hs.grown.votesActive
    refine ⟨fun _ => ⟨d,hd⟩,fun d' hd' => ?_⟩
    obtain rfl := Option.some.inj (hd.symm.trans hd')
    exact hv

theorem Grown.votesLow (hg : Grown h V False D c t) (hage : h.thresholds.proposalMaxAge+1 < 0xFFFF) :
    VotesLow t := by
  intro id sc hsc
  have hb := hg.proposalBounds id sc hsc
  have := hb.votes
  have := hb.age
  omega

/-- A block that was accepted on top of the tip can be recorded. -/
theorem Synced.recordBlock_succeeds {dbs : Dbs} {t' : ConsensusDbs} {info : HeaderInfo}
    {blockInfo : BlockInfo} {d' : Diff.Block} (hs : Synced h V stale dbs c)
    (hhash : info.blockHash = b.blockHash)
    (hh : dbs.blockHashes.header.get? b.blockHash = some b.header)
    (hparent : b.header.prevBlockhash = c.parentHash) :
    ∃ r, recordBlock { dbs with toConsensusDbs := t' } info blockInfo d' = .ok r := by
  have hwork : c ≠ [] → ∃ w, dbs.blockHashes.cumulativeWork.get? c.parentHash = some w := by
    intro hne
    obtain ⟨d,hd⟩ := hs.stored hne
    exact hs.diffs.work _ d hd
  obtain ⟨w,hw⟩ : ∃ w, dbs.blockHashes.chainWork b.blockHash b.header = .ok w := by
    unfold BlockHashDbs.chainWork
    split
    · exact ⟨_,rfl⟩
    · rename_i hz
      obtain ⟨w,hw⟩ := hwork (fun hnil => hz (by rw [hparent,hnil]; rfl))
      rw [← hparent] at hw
      exact ⟨_,by rw [hw]; rfl⟩
  have hput := BlockHashDbs.putBlockInfo_ok.mpr
    ⟨b.header,w,hh,hw,Eq.refl (dbs.blockHashes.recorded b.blockHash blockInfo d' w)⟩
  obtain ⟨tw,htw⟩ : ∃ tw, tipWork dbs.currentChainTip
      (dbs.blockHashes.recorded b.blockHash blockInfo d' w).cumulativeWork = .ok tw := by
    rw [hs.tip]
    cases c with
    | nil => exact ⟨none,rfl⟩
    | cons b' c =>
      obtain ⟨w',hw'⟩ := hwork (by simp)
      refine ⟨some (if b.blockHash = b'.blockHash then w else w'),?_⟩
      have hget : Database.get (dbs.blockHashes.recorded b.blockHash blockInfo d' w).cumulativeWork
          .cumulativeWork b'.blockHash = .ok (if b.blockHash = b'.blockHash then w else w') := by
        rw [Database.get_ok]
        simp only [BlockHashDbs.recorded,FinMap.get?_insert]
        rw [parentHash_cons] at hw'
        split
        · rfl
        · exact hw'
      simp only [tipHash,tipWork,hget]
      rfl
  have hself : Database.get (dbs.blockHashes.recorded b.blockHash blockInfo d' w).cumulativeWork
      .cumulativeWork b.blockHash = .ok w := by
    rw [Database.get_ok]
    exact FinMap.get?_insert_self _ _ _
  unfold recordBlock
  rw [hhash]
  exact ⟨_,Fallible.bind_ok.mpr ⟨_,hput,Fallible.bind_ok.mpr ⟨tw,htw,
    Fallible.bind_ok.mpr ⟨w,hself,rfl⟩⟩⟩⟩

/-- Connecting a block whose header is stored fails only for reasons that lie in the
block. -/
theorem Synced.connectBlock_failsOnly {dbs : Dbs} {A : Prop} (hs : Synced h V False dbs c)
    (hage : h.thresholds.proposalMaxAge+1 < 0xFFFF)
    (hA : A → UtxoValid c b ∧ ChainBacked h c dbs.toConsensusDbs)
    (hh : dbs.blockHashes.header.get? b.blockHash = some b.header) :
    FailsOnly (RejectsBlock A) (h.connectBlock dbs b) := by
  refine .bind ?_ ?_
  · refine .bind ?_ (fun u hu => ?_)
    · unfold ensureTipIsParent
      split
      · split
        · exact .ok _
        · exact .error (.inl rfl)
      · split
        · exact .ok _
        · exact .error (.inl rfl)
    · have hparent := (ensureTipIsParent_ok.mp hu).trans hs.parent_eq
      have hheight := BlockHashDbs.linked_height hs.headers ⟨hh,hparent,hs.linked⟩
      refine .bind (.of_ok ((Database.get_ok _ _ _ _).mpr hheight)) (fun n hn => ?_)
      rw [Database.get_ok,hheight] at hn
      obtain rfl := Option.some.inj hn
      cases htx : b.txdata with
      | nil => exact .error (.inl rfl)
      | cons coinbase txs =>
        refine .bind (processBlock_failsOnly hA htx hs.grown.wf.1
          (fun id sc hsc => (hs.grown.proposals.1 id sc hsc).lt) (hs.grown.votesLow hage) ?_)
          (fun _ _ => .pure _)
        rw [hparent]
        exact hs.parentKnown
  · rintro ⟨info,dbs₁⟩ hp
    obtain ⟨n,coinbase,txs,res,hpa,rfl,rfl⟩ := partialConnectBlock_ok.mp hp
    have hrec : ∃ r, recordBlock { dbs with toConsensusDbs := res.dbs } (headerInfoOf b n)
        res.blockInfo res.diff = .ok r :=
      hs.recordBlock_succeeds rfl hh (hpa.parent.trans hs.parent_eq)
    obtain ⟨r,hr⟩ := hrec
    simp only [finalizeConnectBlock]
    cases res.unconsolidatedCtips.byOutpoint.toList with
    | nil => exact .of_ok hr
    | cons e l => exact .error (.inl rfl)

/-- In a guarded run a disconnect fails only for a block that is not the tip. -/
theorem Synced.disconnectBlock_failsOnly {dbs : Dbs} (hs : Synced h V False dbs c) (hash : BlockHash)
    (hguard : dbs.currentChainTip = none → dbs.blockHashes.diff.get? hash = none) :
    FailsOnly (fun e => ∃ tip, dbs.currentChainTip = some tip ∧ tip ≠ hash ∧ e = .tipHash hash tip)
      (disconnectBlock dbs hash) := by
  unfold disconnectBlock
  cases hd : dbs.blockHashes.diff.get? hash with
  | none => exact .ok _
  | some d =>
    cases c with
    | nil =>
      rw [hguard hs.tip] at hd
      cases hd
    | cons b c =>
      have htip : dbs.currentChainTip = some b.blockHash := hs.tip
      simp only [checkTip,htip]
      refine .bind (.ensure (fun hne => ⟨_,rfl,by simpa using hne,rfl⟩)) (fun _ heq => ?_)
      simp only [Fallible.ensure_ok,decide_eq_true_eq] at heq
      subst heq
      obtain ⟨hh,-,-⟩ := hs.linked
      have hheight := BlockHashDbs.linked_height hs.headers hs.linked
      have hinfo : dbs.blockHashes.getHeaderInfo b.blockHash =
          .ok ⟨b.header.blockHash,b.header.prevBlockhash,c.length,b.header.work,b.header.time⟩ := by
        have hhash : decide (b.header.blockHash = b.blockHash) = true := decide_eq_true rfl
        simp only [BlockHashDbs.getHeaderInfo,hh,Database.get,hheight,hhash,Fallible.require_some,
          Fallible.ok_bind]
        rfl
      rcases hs.grown.undo with ⟨d',t',hd',hu,-⟩ | hbase
      · obtain rfl := Option.some.inj (hd.symm.trans hd')
        exact .bind (.of_ok hinfo) (fun _ _ => .bind (.of_ok hu) (fun _ _ => .pure _))
      · exact absurd (hbase.empty id).1 (by simp)

end Block

end Bip300301Enforcer
