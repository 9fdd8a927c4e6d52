import Bip300301Enforcer.ChainHistory
import Bip300301Enforcer.VoteBounds
import Bip300301Enforcer.Conservation
import Bip300301Enforcer.Lib.Lifetimes
import Bip300301Enforcer.Lib.Entries

/-! The events of a withdrawal bundle along a chain. They say when it was submitted, and
that each time it then succeeded or failed before the age at which it had to. -/
namespace Bip300301Enforcer
open Lib Chain BlockHandler Diff

def WithdrawalBundleEventKind.mark : WithdrawalBundleEventKind → Mark
  | .submitted => .opened
  | .failed => .expired
  | .succeeded _ _ => .closed

def BlockEvent.bundleMark (s : SidechainNumber) (m6id : M6id) : BlockEvent → Option Mark
  | .withdrawalBundle e =>
    if e.sidechainId = s ∧ e.m6id = m6id then some e.kind.mark else none
  | _ => none

def bundleMarks (s : SidechainNumber) (m6id : M6id) (events : List BlockEvent) : List Mark :=
  events.filterMap (BlockEvent.bundleMark s m6id)

def Chain.bundleLog [Bitcoin] (E : BlockHash → Option (List BlockEvent)) (s : SidechainNumber)
    (m6id : M6id) : Chain → List (ℕ × Mark)
  | [] => []
  | b::c => bundleLog E s m6id c++
    (bundleMarks s m6id ((E b.blockHash).getD [])).map (fun m => (c.length,m))

def BlockHandler.bundleLife (h : BlockHandler) : ℕ := h.thresholds.withdrawalBundleMaxAge.toNat

/-- The height at which a pending bundle was proposed. -/
def ActiveSidechainDbs.pendingSince (dbs : ActiveSidechainDbs) (s : SidechainNumber) (m6id : M6id) :
    Option ℕ :=
  (dbs.pendingM6ids.get? s).bind (fun p => (p.get? m6id).map PendingM6idInfo.proposalHeight)

section Marks

variable {s : SidechainNumber} {m6id : M6id}

@[simp] theorem bundleMarks_nil : bundleMarks s m6id [] = [] := rfl

@[simp] theorem bundleMarks_append (a b : List BlockEvent) :
    bundleMarks s m6id (a++b) = bundleMarks s m6id a++bundleMarks s m6id b := by
  simp [bundleMarks]

@[simp] theorem bundleMarks_bundle (e : WithdrawalBundleEvent) :
    bundleMarks s m6id [.withdrawalBundle e] =
      if e.sidechainId = s ∧ e.m6id = m6id then [e.kind.mark] else [] := by
  by_cases he : e.sidechainId = s ∧ e.m6id = m6id <;> simp [bundleMarks,BlockEvent.bundleMark,he]

@[simp] theorem bundleMarks_proposal (vout : ℕ) (proposal : SidechainProposal) :
    bundleMarks s m6id [.sidechainProposal vout proposal] = [] := rfl

@[simp] theorem bundleMarks_deposits (ds : FinMap SidechainNumber Deposit) :
    bundleMarks s m6id [.deposits ds] = [] := rfl

end Marks

section Coinbase

variable [Bitcoin] {h : BlockHandler} {t t' : ConsensusDbs} {n : ℕ} {parent : BlockHash}
  {prevDiff : Option Diff.Block} {msg : CoinbaseMessage} {e : Option CoinbaseMessageEvent}
  {s : SidechainNumber} {m6id : M6id} {events : List BlockEvent}
  {proposals : FinMap SidechainProposalId ℕ}

theorem handled_marks (s : SidechainNumber) (m6id : M6id) {d : Option CoinbaseMsg}
    (hh : Handled h t n parent prevDiff msg e d)
    (he : messageEvent proposals e = .ok events) :
    bundleMarks s m6id events = if d = some (.proposeBundle ⟨s,m6id⟩) then [.opened] else [] := by
  cases hh with
  | m1Known | m2Unknown | m2SameBlock | m2 | m7 =>
    obtain rfl := Except.ok.inj he
    simp
  | m1New =>
    obtain ⟨vout,-,he⟩ := Fallible.bind_ok.mp he
    obtain rfl := Except.ok.inj he
    simp
  | m3 =>
    obtain rfl := Except.ok.inj he
    simp [WithdrawalBundleEventKind.mark]
  | m4 =>
    obtain rfl := Except.ok.inj he
    split <;> simp

theorem pending_of_propose
    (hh : Handled h t n parent prevDiff msg e (some (.proposeBundle ⟨s,m6id⟩))) :
    t.activeSidechains.pendingM6ids.get? s ≠ none := by
  generalize hd : some (CoinbaseMsg.proposeBundle ⟨s,m6id⟩) = od at hh
  cases hh with
  | m1Known | m2Unknown | m2SameBlock | m7 | m1New | m2 => simp at hd
  | m3 active pending new =>
    simp only [Option.some.injEq,CoinbaseMsg.proposeBundle.injEq,ProposeBundle.mk.injEq] at hd
    simp [hd.1,pending]
  | m4 => split at hd <;> simp at hd

/-- A coinbase message that proposes a bundle makes it pending, and no other message changes
since when it is pending. -/
theorem message_pendingSince (s : SidechainNumber) (m6id : M6id) {d : CoinbaseMsg}
    (hh : Handled h t n parent prevDiff msg e (some d)) (hw : t.Wf) (ha : d.apply t n = .ok t') :
    (d = .proposeBundle ⟨s,m6id⟩ ∧ t.activeSidechains.pendingSince s m6id = none ∧
      t'.activeSidechains.pendingSince s m6id = some n) ∨
    (d ≠ .proposeBundle ⟨s,m6id⟩ ∧
      t'.activeSidechains.pendingSince s m6id = t.activeSidechains.pendingSince s m6id) := by
  unfold ActiveSidechainDbs.pendingSince
  cases hq : t'.activeSidechains.pendingM6ids.get? s with
  | none =>
    have hp : t.activeSidechains.pendingM6ids.get? s = none := by
      have hno : t'.activeSidechains.sidechain.contains s = false := by
        rw [← (wf_message hw hh ha).tables.pending s]
        exact (FinMap.contains_false_iff _ _).mpr hq
      rw [← FinMap.contains_false_iff,hw.tables.pending s]
      by_contra hyes
      rw [(message_frame ha).2 s (by simpa using hyes)] at hno
      cases hno
    refine .inr ⟨?_,by rw [hp]⟩
    rintro rfl
    exact pending_of_propose hh hp
  | some q =>
    rcases message_bundles hh ha hq with ⟨hp,rfl⟩ | ⟨p,hp,⟨m,rfl,-,hnew,rfl⟩ | ⟨hd,f,rfl,hf⟩⟩
    · refine .inr ⟨?_,by simp [hp]⟩
      rintro rfl
      exact pending_of_propose hh hp
    · by_cases hm : m = m6id
      · subst hm
        have hnone := OrderMap.get?_eq_none.mpr hnew
        exact .inl ⟨rfl,by simp [hp,hnone],by simp [OrderMap.get?_insert,PendingM6idInfo.new]⟩
      · exact .inr ⟨by simp [hm],by simp [hp,OrderMap.get?_insert,Ne.symm hm]⟩
    · refine .inr ⟨hd m6id,?_⟩
      rw [hp,Option.bind_some,Option.bind_some,OrderMap.get?_mapVals]
      cases hi : p.get? m6id with
      | none => rfl
      | some info => simp [(hf m6id info hi).1]

omit [Bitcoin] in
theorem failed_marks (bad : M6id × PendingM6idInfo → Bool) (l : List (M6id × PendingM6idInfo))
    (idx : ℕ) : bundleMarks s m6id ((FailedM6ids.positionsFrom bad l idx).map
        (fun f => .withdrawalBundle ⟨s,f.2.1,.failed⟩)) =
      l.flatMap (fun e => if bad e = true ∧ e.1 = m6id then [.expired] else []) := by
  induction l generalizing idx with
  | nil => rfl
  | cons e l ih =>
    rw [FailedM6ids.positionsFrom_cons,List.flatMap_cons,← ih (idx+1)]
    by_cases hbad : bad e = true
    · rw [if_pos hbad,List.map_cons,← List.singleton_append,bundleMarks_append,bundleMarks_bundle]
      simp [hbad,WithdrawalBundleEventKind.mark]
    · simp [hbad]

omit [Bitcoin] in
/-- The bundles that fail in a block are the pending ones that have become too old, and each
of them is reported. -/
theorem failedM6ids_marks (s : SidechainNumber) (m6id : M6id) {dbs dbs' : ActiveSidechainDbs} {d : FailedM6ids} (ht : dbs.Tables)
    (hd : h.handleFailedM6ids dbs n = .ok d) (ha : d.apply dbs = .ok dbs') :
    (∃ k, dbs.pendingSince s m6id = some k ∧ h.bundleLife < n-k ∧
      bundleMarks s m6id d.events = [.expired] ∧ dbs'.pendingSince s m6id = none) ∨
    ((∀ k, dbs.pendingSince s m6id = some k → n-k ≤ h.bundleLife) ∧
      bundleMarks s m6id d.events = [] ∧ dbs'.pendingSince s m6id = dbs.pendingSince s m6id) := by
  obtain ⟨m,rfl,hkeep,hnone⟩ := failedM6ids_apply ht hd ha
  obtain ⟨d',hd',hget⟩ : ∃ d, h.handleFailedM6ids dbs n = .ok d ∧
      ∀ s, d.failed.get? s = (dbs.pendingM6ids.get? s).bind (h.failedOf n) := handleFailedM6ids_ok ht
  obtain rfl := Except.ok.inj (hd.symm.trans hd')
  have hother : ∀ e : SidechainNumber × FailedPositions, e.1 ≠ s → bundleMarks s m6id
      (e.2.map (fun f => .withdrawalBundle ⟨e.1,f.2.1,.failed⟩)) = [] := by
    intro e he
    simp [bundleMarks,BlockEvent.bundleMark,he]
  have hevents : bundleMarks s m6id d.events = d.failed.toList.flatMap (fun e =>
      bundleMarks s m6id (e.2.map (fun f => .withdrawalBundle ⟨e.1,f.2.1,.failed⟩))) := by
    rw [bundleMarks,FailedM6ids.events,List.filterMap_flatMap]
    rfl
  unfold ActiveSidechainDbs.pendingSince
  cases hp : dbs.pendingM6ids.get? s with
  | none =>
    have hs := hget s
    rw [hp,Option.bind_none] at hs
    have hmarks := Entries.flatMap_of_not_mem (FinMap.not_mem_keys.mpr hs) hother
    exact .inr ⟨by simp,hevents.trans hmarks,by simp [hnone s hp]⟩
  | some p =>
    obtain ⟨q,hq,hentries⟩ := hkeep s p hp
    have hs := hget s
    rw [hp,Option.bind_some,failedOf] at hs
    have hmarks : bundleMarks s m6id d.events = p.entries.flatMap (fun e =>
        if h.expired n e = true ∧ e.1 = m6id then [.expired] else []) := by
      rw [hevents,← failed_marks (s := s) (h.expired n) p.entries 0,← failedPositions_eq]
      split at hs
      · rename_i hem
        rw [List.isEmpty_iff.mp hem,Entries.flatMap_of_not_mem (FinMap.not_mem_keys.mpr hs) hother]
        rfl
      · exact Entries.flatMap_of_mem d.failed.nodup_keys (FinMap.mem_toList.mpr hs) hother
    have hkey : ∀ e : M6id × PendingM6idInfo, e.1 ≠ m6id →
        (if h.expired n e = true ∧ e.1 = m6id then [Mark.expired] else []) = [] :=
      fun e he => if_neg (fun hc => he hc.2)
    have hleft := fun info => OrderMap.get?_filter (k := m6id) (v := info) hentries
    cases hi : p.get? m6id with
    | none =>
      have hqi : q.get? m6id = none := Option.eq_none_iff_forall_ne_some.mpr
        (fun info hinfo => by simpa [hi] using ((hleft info).mp hinfo).1)
      rw [Entries.flatMap_of_not_mem (OrderMap.get?_eq_none.mp hi) hkey] at hmarks
      exact .inr ⟨by simp [hi],hmarks,by simp [hq,hqi,hi]⟩
    | some info =>
      rw [Entries.flatMap_of_mem p.nodup (OrderMap.mem_entries.mpr hi) hkey] at hmarks
      cases hold : h.expired n (m6id,info) with
      | true =>
        have hqi : q.get? m6id = none := by
          refine Option.eq_none_iff_forall_ne_some.mpr (fun info' hinfo => ?_)
          obtain ⟨hi',hkept⟩ := (hleft info').mp hinfo
          obtain rfl := Option.some.inj (hi.symm.trans hi')
          simp [hold] at hkept
        refine .inl ⟨info.proposalHeight,by simp [hi],?_,by simp [hmarks,hold],by simp [hq,hqi]⟩
        simpa [expired,bundleLife] using hold
      | false =>
        have hqi : q.get? m6id = some info := (hleft info).mpr ⟨hi,by simp [hold]⟩
        refine .inr ⟨?_,by simp [hmarks,hold],by simp [hq,hqi,hi]⟩
        simpa [hi,expired,bundleLife] using hold

end Coinbase

section Txs

variable [Bitcoin] {h : BlockHandler} {tx : Transaction} {acc acc' : TxState}
  {infos : FinMap SidechainNumber TxCtipsInfo} {res : Option DepositsOrSuccessfulWithdrawal}
  {s : SidechainNumber} {m6id : M6id}

/-- A transaction pays a bundle that is pending, or says nothing of it. -/
theorem txDone_marks (s : SidechainNumber) (m6id : M6id) (hd : TxDone h acc tx acc' infos res) :
    (bundleMarks s m6id acc'.events = bundleMarks s m6id acc.events ∧
      acc'.dbs.pendingSince s m6id = acc.dbs.pendingSince s m6id) ∨
    (∃ k, acc.dbs.pendingSince s m6id = some k ∧
      bundleMarks s m6id acc'.events = bundleMarks s m6id acc.events++[.closed] ∧
      acc'.dbs.pendingSince s m6id = none) := by
  have heff := hd.effect
  have hpend := hd.pending.2
  unfold ActiveSidechainDbs.pendingSince
  match res with
  | none => exact .inl ⟨by rw [heff.2.1],by rw [hpend]⟩
  | some (.m5Deposits deposits d) =>
    refine .inl ⟨?_,by rw [hpend]⟩
    rw [heff.2.1]
    simp [TransactionEvent.toBlockEvent]
  | some (.m6Withdrawal s' m n d) =>
    obtain ⟨p,hp,hpend⟩ := hpend
    obtain ⟨info,-,-,hm,rfl,-⟩ := hd.outcome
    obtain ⟨consolidated,p',hw⟩ := makeM6_ok.mp hm
    have hslot := makeM6_sidechainNumber hm
    obtain rfl := Option.some.inj (hp.symm.trans hw.pending)
    have hget := OrderMap.getFull_get? hw.position
    have hmarks : bundleMarks s m6id acc'.events = bundleMarks s m6id acc.events++
        if s' = s ∧ d.removedPendingWithdrawal = m6id then [.closed] else [] := by
      rw [heff.2.1]
      simp [TransactionEvent.toBlockEvent,WithdrawalBundleEventKind.mark]
    by_cases hs : s' = s
    · subst hs
      by_cases hid : d.removedPendingWithdrawal = m6id
      · subst hid
        exact .inr ⟨_,by rw [hp,Option.bind_some,hget]; rfl,by simpa using hmarks,
          by simp [hpend,OrderMap.get?_remove]⟩
      · refine .inl ⟨by simpa [hid] using hmarks,?_⟩
        simp [hpend,hp,OrderMap.get?_remove,Ne.symm hid]
    · refine .inl ⟨by simpa [hs] using hmarks,?_⟩
      simp [hpend,FinMap.get?_insert,hs]

end Txs

section Chain

variable [Bitcoin] {h : BlockHandler} {V : Chain → Block → Prop}
  {D : BlockHash → Option Diff.Block} {E : BlockHash → Option (List BlockEvent)} {c : Chain}
  {t t₂ : ConsensusDbs} {reads : List ReadTx} {dbs : Dbs} {s : SidechainNumber} {m6id : M6id}

/-- The log of a bundle within a block of height `n`, when the log below the block is
`past`. A pending bundle was proposed below or in the block, and is at most this old. -/
structure LogRead (h : BlockHandler) (n age : ℕ) (past : List (ℕ × Mark)) (s : SidechainNumber)
    (m6id : M6id) (events : List BlockEvent) (dbs : ActiveSidechainDbs) : Prop where
  lived : Lived h.bundleLife (past++(bundleMarks s m6id events).map (fun m => (n,m)))
    (dbs.pendingSince s m6id)
  since : ∀ k, dbs.pendingSince s m6id = some k → k ≤ n ∧ n ≤ k+age

/-- One coinbase message continues the log. -/
theorem LogRead.message {n : ℕ} {past : List (ℕ × Mark)} {parent : BlockHash}
    {prevDiff : Option Diff.Block} {proposals : FinMap SidechainProposalId ℕ}
    {acc acc' : CoinbaseState} {m : CoinbaseMessage × ℕ} (hw : acc.dbs.Wf)
    (hl : LogRead h n (h.bundleLife+1) past s m6id acc.events acc.dbs.activeSidechains)
    (hm : h.connectMessage n parent prevDiff proposals acc m = .ok acc') :
    LogRead h n (h.bundleLife+1) past s m6id acc'.events acc'.dbs.activeSidechains := by
  obtain ⟨event,events,he,hev,hcase⟩ := connectMessage_ok hm
  rcases hcase with ⟨hh,hdbs,-⟩ | ⟨d,hh,ha,-⟩
  · have hmarks := handled_marks s m6id hh he
    rw [hdbs]
    refine ⟨?_,hl.since⟩
    rw [hev,bundleMarks_append,hmarks]
    simpa using hl.lived
  · have hmarks := handled_marks s m6id hh he
    rcases message_pendingSince s m6id hh hw ha with ⟨rfl,hnone,hnew⟩ | ⟨hne,hsame⟩
    · refine ⟨?_,?_⟩
      · have hlived := hl.lived
        rw [hnone] at hlived
        rw [hnew,hev,bundleMarks_append,hmarks]
        simpa using hlived.opened
      · intro k hk
        obtain rfl := Option.some.inj (hnew.symm.trans hk)
        exact ⟨Nat.le_refl n,Nat.le_add_right n _⟩
    · refine ⟨?_,by rw [hsame]; exact hl.since⟩
      rw [hev,bundleMarks_append,hmarks,hsame]
      simpa [hne] using hl.lived

/-- The coinbase continues the log, and no bundle is too old after it. -/
theorem LogRead.coinbase {n : ℕ} {past : List (ℕ × Mark)} {parent : BlockHash}
    {prevDiff : Option Diff.Block} {coinbase : Transaction} {accepted : BmmCommitments}
    {events : List BlockEvent} {d : Diff.Coinbase} (hw : t.Wf)
    (hl : LogRead h n (h.bundleLife+1) past s m6id [] t.activeSidechains)
    (hc : h.connectCoinbase t n parent prevDiff coinbase = .ok (t₂,accepted,events,d)) :
    LogRead h n h.bundleLife past s m6id events t₂.activeSidechains := by
  obtain ⟨scan,-,hc⟩ := Fallible.bind_ok.mp hc
  obtain ⟨acc,hacc,hc⟩ := Fallible.bind_ok.mp hc
  rw [connectMissingM4_eq,Fallible.ok_bind] at hc
  obtain ⟨failed,hfailed,hc⟩ := Fallible.bind_ok.mp hc
  obtain ⟨active,hactive,hc⟩ := Fallible.bind_ok.mp hc
  simp only [Fallible.pure_ok,Prod.mk.injEq] at hc
  obtain ⟨rfl,-,rfl,-⟩ := hc
  obtain ⟨hwacc,hread⟩ := Fallible.foldlM_invariant (fun acc => acc.dbs.Wf ∧
      LogRead h n (h.bundleLife+1) past s m6id acc.events acc.dbs.activeSidechains) hacc ⟨hw,hl⟩
    (by
      rintro m acc acc' - ⟨hw,hl⟩ hm
      refine ⟨?_,hl.message hw hm⟩
      obtain ⟨event,events,-,-,⟨-,hdbs,-⟩ | ⟨d,hh,ha,-⟩⟩ := connectMessage_ok hm
      · rw [hdbs]; exact hw
      · exact wf_message hw hh ha)
  rcases failedM6ids_marks s m6id hwacc.tables hfailed hactive with
    ⟨k,hk,hold,hmarks,hnone⟩ | ⟨hage,hmarks,hsame⟩
  · -- the bundle was pending below this block, and it is one block too old now
    obtain ⟨-,hle⟩ := hread.since k hk
    have hn : n = k+h.bundleLife+1 := by omega
    have hlived := hread.lived
    rw [hk] at hlived
    refine ⟨?_,by simp [hnone]⟩
    rw [hnone,bundleMarks_append,hmarks]
    simpa [← hn] using hlived.expired
  · refine ⟨?_,?_⟩
    · rw [hsame,bundleMarks_append,hmarks]
      simpa using hread.lived
    · intro k hk
      have hk' := hsame ▸ hk
      have := hage k hk'
      exact ⟨(hread.since k hk').1,by omega⟩

theorem LogRead.tx {n : ℕ} {past : List (ℕ × Mark)} {acc acc' : TxState} {tx : Transaction}
    {infos : FinMap SidechainNumber TxCtipsInfo} {res : Option DepositsOrSuccessfulWithdrawal}
    (hl : LogRead h n h.bundleLife past s m6id acc.events acc.dbs)
    (hd : TxDone h acc tx acc' infos res) :
    LogRead h n h.bundleLife past s m6id acc'.events acc'.dbs := by
  rcases txDone_marks s m6id hd with ⟨hmarks,hsame⟩ | ⟨k,hk,hmarks,hnone⟩
  · exact ⟨by rw [hmarks,hsame]; exact hl.lived,by rw [hsame]; exact hl.since⟩
  · obtain ⟨hlow,hhigh⟩ := hl.since k hk
    have hlived := hl.lived
    rw [hk] at hlived
    refine ⟨?_,by simp [hnone]⟩
    rw [hnone,hmarks]
    simpa using hlived.closed hlow hhigh

omit [Bitcoin] in
theorem pendingSince_like {P : Prop} {t' : ConsensusDbs} (hl : ConsensusDbs.Like P t' t) :
    t'.activeSidechains.pendingSince s m6id = t.activeSidechains.pendingSince s m6id := by
  obtain ⟨i,hi,-⟩ := hl.1
  rw [hi]
  rfl

theorem Grown.pendingSince_bounds {stale : Prop} (hg : Grown h V stale D c t) {k : ℕ}
    (hk : t.activeSidechains.pendingSince s m6id = some k) :
    k < c.length ∧ c.length ≤ k+h.bundleLife+1 := by
  obtain ⟨p,hp,hk⟩ := Option.bind_eq_some_iff.mp hk
  obtain ⟨info,hi,rfl⟩ := Option.map_eq_some_iff.mp hk
  have hbounds := hg.pendingBounds s p hp
  have hmem := PendingM6ids.mem_heights.mpr ⟨m6id,info,hi,rfl⟩
  have hage : c.length ≤ info.proposalHeight+1+h.bundleLife := hbounds.age _ hmem
  have hlast := hbounds.last _ hmem
  omega

theorem History.bundleLog (hh : History h V D E c t reads) (s : SidechainNumber) (m6id : M6id) :
    Lived h.bundleLife (c.bundleLog E s m6id) (t.activeSidechains.pendingSince s m6id) := by
  induction hh with
  | base hb =>
    obtain ⟨i,hi,-⟩ := hb.bare.active
    rw [hi]
    exact .start
  | @connect c t t' b coinbase txs res reads hh hv ha hs he hl ih =>
    rw [pendingSince_like hl,Chain.bundleLog,he,Option.getD_some]
    rcases processBlock_ok ha.processed with
      ⟨-,rfl⟩ | ⟨-,scan,t₁,t₂,accepted,events,d,acc,hcb,hc,hf,rfl⟩
    · simpa [emptyBlockInfoAndDiff] using ih
    · have hstart : LogRead h c.length (h.bundleLife+1) (c.bundleLog E s m6id) s m6id []
          t.activeSidechains := by
        refine ⟨by simpa using ih,?_⟩
        intro k hk
        have := hh.grown.pendingSince_bounds hk
        omega
      exact (Fallible.foldlM_invariant
        (fun acc => LogRead h c.length h.bundleLife (c.bundleLog E s m6id) s m6id acc.events acc.dbs)
        hf (hstart.coinbase hh.grown.wf.1 hcb) (fun tx acc acc' _ hI hstep => by
          obtain ⟨infos,r,hd⟩ := connectTx_ok hstep
          exact hI.tx hd)).lived

/-- In every state that can be reached, the stored events of the active chain are a log of
each bundle in which it is submitted, and then succeeds at most the maximal age later or
fails at exactly one block more, before it can be submitted again. The bundle is pending
since the last block in which it was submitted and not settled yet. -/
theorem bundle_lifecycle (hr : Reach h V False dbs c) (s : SidechainNumber) (m6id : M6id) :
    let log := c.bundleLog dbs.blockHashes.events.get? s m6id
    let since := dbs.activeSidechains.pendingSince s m6id
    Lived h.bundleLife log since ∧
      (∀ k, since = some k → k < c.length ∧ c.length ≤ k+h.bundleLife+1) ∧
      ∀ before n after, log = before++(n,.opened)::after → n+h.bundleLife+1 < c.length →
        ∃ e rest, after = e::rest ∧ Lived.Ends h.bundleLife n e := by
  obtain ⟨reads,hh⟩ := hr.history not_false
  have hlived := hh.bundleLog s m6id
  refine ⟨hlived,fun k => hh.grown.pendingSince_bounds,?_⟩
  intro before n after hsplit hlong
  rcases hlived.ends hsplit with ⟨-,hopen⟩ | hends
  · have := (hh.grown.pendingSince_bounds hopen).2
    omega
  · exact hends

end Chain

section Sample

open Sample TreasurySample

namespace LifecycleSample

def run : Dbs × Chain :=
  Call.runAll handler UtxoValid (Call.connectAll (blocksOn allZeros 0 (contents++
    [([],[withdrawal]),([m3Script 0 bundle],[])]++List.replicate 11 ([],[])++
    [([m3Script 0 bundle],[])])))

theorem reach_run : Reach handler UtxoValid False run.1 run.2 :=
  Call.reach_connects _ _

def log : List (ℕ × Mark) :=
  [(9,.opened),(15,.closed),(16,.opened),(27,.expired),(28,.opened)]

end LifecycleSample

theorem bundle_lifecycle_sample :
    LifecycleSample.run.2.bundleLog LifecycleSample.run.1.blockHashes.events.get? 0 bundle =
      LifecycleSample.log ∧
    Lived handler.bundleLife LifecycleSample.log (some 28) := by
  have hlog : LifecycleSample.run.2.bundleLog LifecycleSample.run.1.blockHashes.events.get? 0
      bundle = LifecycleSample.log := by decide +kernel
  have hsince : LifecycleSample.run.1.activeSidechains.pendingSince 0 bundle = some 28 := by
    decide +kernel
  have hlived := (bundle_lifecycle LifecycleSample.reach_run 0 bundle).1
  rw [hlog,hsince] at hlived
  exact ⟨hlog,hlived⟩

end Sample
end Bip300301Enforcer
