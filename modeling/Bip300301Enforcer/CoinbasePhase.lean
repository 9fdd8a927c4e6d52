import Bip300301Enforcer.Tables

/-! The coinbase phase of a block: every message keeps the links between the
tables, leaves the treasuries alone and can be taken back. -/
namespace Bip300301Enforcer
open Lib

namespace Diff

namespace AckSidechainProposal

def acked (sc : Sidechain) : Sidechain := sc.withVotes (sc.status.voteCount+1)

theorem apply_ok {d : AckSidechainProposal} {dbs dbs' : ConsensusDbs} {height : ℕ} :
    d.apply dbs height = .ok dbs' ↔ ∃ sc, dbs.proposalIdToSidechain.get? d.id = some sc ∧
      sc.status.voteCount ≠ 0xFFFF ∧
      dbs' = if d.effect = .noActivation then
          { dbs with proposalIdToSidechain := dbs.proposalIdToSidechain.insert d.id (acked sc) }
        else d.activate dbs (acked sc) height := by
  obtain ⟨id,effect⟩ := d
  simp only [apply,Fallible.bind_ok,Database.get_ok,incrementVotes_ok]
  constructor
  · rintro ⟨sc,hsc,v,⟨hmax,rfl⟩,h⟩
    refine ⟨sc,hsc,hmax,?_⟩
    cases effect with
    | noActivation => simpa [acked] using (Fallible.pure_ok _ _).mp h |>.symm
    | replaceActive prev => simpa [acked] using (Fallible.pure_ok _ _).mp h |>.symm
    | slotActivation => simpa [acked] using (Fallible.pure_ok _ _).mp h |>.symm
  · rintro ⟨sc,hsc,hmax,rfl⟩
    refine ⟨sc,hsc,_,⟨hmax,rfl⟩,?_⟩
    cases effect <;> simp [acked]

end AckSidechainProposal

namespace AckBundles

theorem apply_ok {d : AckBundles} {dbs dbs' : ActiveSidechainDbs} (h : d.apply dbs = .ok dbs') :
    ∃ m, dbs' = { dbs with pendingM6ids := m } ∧
      (∀ s a, d.actions.get? s = some a → ∃ p q, dbs.pendingM6ids.get? s = some p ∧
        a.applyPending p = .ok q ∧ m.get? s = some q) ∧
      ∀ s, d.actions.get? s = none → m.get? s = dbs.pendingM6ids.get? s := by
  rw [apply_eq] at h
  cases hu : FinMap.updateEach (.db .pendingM6ids) (fun _ a p => a.applyPending p)
      d.actions.toList dbs.pendingM6ids with
  | error e => rw [hu] at h; cases h
  | ok m =>
    rw [hu] at h
    obtain ⟨h₁,h₂⟩ := FinMap.updateEach_get? (FinMap.nodup_keys d.actions) hu
    refine ⟨m,(Except.ok.inj h).symm,fun s a hs => h₁ s a (FinMap.mem_toList.mpr hs),?_⟩
    intro s hs
    apply h₂
    intro hk
    rw [← FinMap.keys,FinMap.mem_keys,FinMap.contains,hs] at hk
    cases hk

end AckBundles

namespace FailedM6ids

theorem apply_ok {d : FailedM6ids} {dbs dbs' : ActiveSidechainDbs} (h : d.apply dbs = .ok dbs') :
    ∃ m, dbs' = { dbs with pendingM6ids := m } ∧
      (∀ s f, d.failed.get? s = some f → ∃ p q, dbs.pendingM6ids.get? s = some p ∧
        removeFailedWithdrawals f p = .ok q ∧ m.get? s = some q) ∧
      ∀ s, d.failed.get? s = none → m.get? s = dbs.pendingM6ids.get? s := by
  rw [apply_eq] at h
  cases hu : FinMap.updateEach (.db .pendingM6ids) (fun _ f p => removeFailedWithdrawals f p)
      d.failed.toList dbs.pendingM6ids with
  | error e => rw [hu] at h; cases h
  | ok m =>
    rw [hu] at h
    obtain ⟨h₁,h₂⟩ := FinMap.updateEach_get? (FinMap.nodup_keys d.failed) hu
    refine ⟨m,(Except.ok.inj h).symm,fun s f hs => h₁ s f (FinMap.mem_toList.mpr hs),?_⟩
    intro s hs
    apply h₂
    intro hk
    rw [← FinMap.keys,FinMap.mem_keys,FinMap.contains,hs] at hk
    cases hk

end FailedM6ids

end Diff

namespace ActiveSidechainDbs

theorem tables_setPending {dbs : ActiveSidechainDbs} {m : Database SidechainNumber PendingM6ids}
    (h : dbs.Tables) (hm : ∀ s, m.contains s = dbs.pendingM6ids.contains s) :
    Tables { dbs with pendingM6ids := m } := by
  have hst : SameTreasury { dbs with pendingM6ids := m } dbs := ⟨rfl,rfl,rfl,rfl⟩
  exact ⟨fun s => (hm s).trans (h.pending s),fun s => hst.history (h.history s),h.ctipActive⟩

theorem pending_of_active {dbs : ActiveSidechainDbs} (h : dbs.Tables) {s : SidechainNumber}
    (hs : dbs.sidechain.contains s = true) : ∃ p, dbs.pendingM6ids.get? s = some p :=
  (FinMap.contains_iff _ _).mp ((h.pending s).trans hs)

theorem tables_putSidechain {dbs : ActiveSidechainDbs} (s : SidechainNumber) (sc : Sidechain)
    (h : dbs.Tables) : (dbs.putSidechain s sc).Tables := by
  have hst : SameTreasury (dbs.putSidechain s sc) dbs := ⟨rfl,rfl,rfl,rfl⟩
  refine ⟨?_,fun s' => hst.history (h.history s'),?_⟩
  · intro s'
    have hs' := h.pending s'
    simp only [putSidechain]
    split
    · rename_i hc
      rw [FinMap.contains_insert]
      by_cases hne : s = s'
      · subst hne; simp [hc]
      · simpa [hne] using hs'
    · rw [FinMap.contains_insert,FinMap.contains_insert,hs']
  · intro s' hc
    simp only [putSidechain,FinMap.contains_insert]
    rw [h.ctipActive s' hc,Bool.or_true]

end ActiveSidechainDbs

namespace BlockHandler
open Diff ActiveSidechainDbs

variable {h : BlockHandler} {t t' : ConsensusDbs} {height : ℕ} {parent : BlockHash}
  {prevDiff : Option Diff.Block} {msg : CoinbaseMessage} {e : Option CoinbaseMessageEvent}

theorem ackEffect_cases (existing : Option Sidechain) (votes : UInt16) (age : ℕ) :
    h.ackEffect existing votes age = .noActivation ∨
    (∃ prev, existing = some prev ∧ h.ackEffect existing votes age = .replaceActive prev) ∨
    (existing = none ∧ h.ackEffect existing votes age = .slotActivation) := by
  unfold ackEffect
  split
  · cases existing with
    | none => exact .inr (.inr ⟨rfl,rfl⟩)
    | some prev => exact .inr (.inl ⟨prev,rfl,rfl⟩)
  · exact .inl rfl

/-- A diff of the coinbase leaves the treasuries alone, and no slot becomes inactive. -/
theorem message_frame {d : CoinbaseMsg} (ha : d.apply t height = .ok t') :
    SameTreasury t'.activeSidechains t.activeSidechains ∧
    ∀ s, t.activeSidechains.sidechain.contains s = true →
      t'.activeSidechains.sidechain.contains s = true := by
  cases d with
  | newSidechainProposal d =>
    obtain rfl := Except.ok.inj ha
    exact ⟨.refl _,fun s hs => hs⟩
  | ackSidechainProposal d =>
    obtain ⟨sc,hsc,-,rfl⟩ := AckSidechainProposal.apply_ok.mp ha
    split
    · exact ⟨.refl _,fun s hs => hs⟩
    · refine ⟨⟨rfl,rfl,rfl,rfl⟩,fun s hs => ?_⟩
      simp only [AckSidechainProposal.activate,putSidechain,FinMap.contains_insert]
      rw [hs,Bool.or_true]
  | proposeBundle d =>
    obtain ⟨a,hp,ha⟩ := Fallible.bind_ok.mp ha
    obtain ⟨p,q,-,-,rfl⟩ := withPendingWithdrawals_ok.mp hp
    rw [Fallible.pure_ok] at ha
    subst ha
    exact ⟨⟨rfl,rfl,rfl,rfl⟩,fun s hs => hs⟩
  | ackBundles d =>
    obtain ⟨a,hp,ha⟩ := Fallible.bind_ok.mp ha
    obtain ⟨m,rfl,-,-⟩ := AckBundles.apply_ok hp
    rw [Fallible.pure_ok] at ha
    subst ha
    exact ⟨⟨rfl,rfl,rfl,rfl⟩,fun s hs => hs⟩

section Messages

variable [Bitcoin]

theorem wf_acked {id : SidechainProposalId} {sc : Sidechain} (hw : t.Wf)
    (hsc : t.proposalIdToSidechain.get? id = some sc) :
    (AckSidechainProposal.acked sc).proposal.computeId = id ∧
      (AckSidechainProposal.acked sc).status.activationHeight = none :=
  hw.proposals id sc hsc

theorem wf_activate {d : AckSidechainProposal} {sc : Sidechain} (hw : t.Wf)
    (hsc : t.proposalIdToSidechain.get? d.id = some sc) :
    (d.activate t (AckSidechainProposal.acked sc) height).Wf := by
  refine ⟨tables_putSidechain _ _ hw.tables,?_,?_⟩
  · intro s sc' hs
    simp only [AckSidechainProposal.activate,putSidechain,FinMap.get?_insert] at hs
    split at hs
    · rename_i he
      obtain rfl := Option.some.inj hs
      refine ⟨?_,rfl⟩
      have hid := (hw.proposals _ _ hsc).1
      rw [← he,← hid]
      rfl
    · exact hw.sidechains s sc' hs
  · intro id sc' hs
    simp only [AckSidechainProposal.activate,FinMap.get?_erase] at hs
    split at hs
    · cases hs
    · exact hw.proposals id sc' hs

/-- An accepted message keeps the links. -/
theorem wf_message {d : CoinbaseMsg} (hw : t.Wf)
    (hh : Handled h t height parent prevDiff msg e (some d)) (ha : d.apply t height = .ok t') :
    t'.Wf := by
  generalize hd : some d = od at hh
  cases hh with
  | m1Known | m2Unknown | m2SameBlock | m7 => cases hd
  | @m1New s description new =>
    obtain rfl := Option.some.inj hd
    obtain rfl := Except.ok.inj ha
    refine ⟨hw.tables,hw.sidechains,?_⟩
    intro id sc hs
    simp only [NewSidechainProposal.apply,FinMap.get?_insert] at hs
    split at hs
    · rename_i he
      obtain rfl := Option.some.inj hs
      exact ⟨he,rfl⟩
    · exact hw.proposals id sc hs
  | @m2 s dh sc pending earlier votes =>
    obtain rfl := Option.some.inj hd
    obtain ⟨sc',hsc',-,rfl⟩ := AckSidechainProposal.apply_ok.mp ha
    split
    · refine ⟨hw.tables,hw.sidechains,?_⟩
      intro id sc'' hs
      simp only [FinMap.get?_insert] at hs
      split at hs
      · rename_i he
        obtain rfl := Option.some.inj hs
        rw [← he]
        exact wf_acked hw hsc'
      · exact hw.proposals id sc'' hs
    · exact wf_activate hw hsc'
  | @m3 s m6id p active pending new =>
    obtain rfl := Option.some.inj hd
    obtain ⟨a,hp,ha⟩ := Fallible.bind_ok.mp ha
    obtain ⟨p',q,hp',hq,rfl⟩ := withPendingWithdrawals_ok.mp hp
    rw [Fallible.pure_ok] at ha
    subst ha
    refine ⟨tables_setPending hw.tables ?_,hw.sidechains,hw.proposals⟩
    intro s'
    rw [FinMap.contains_insert]
    by_cases he : s = s'
    · subst he; simp [FinMap.contains,hp']
    · simp [he]
  | @m4 m4 ab votes =>
    split at hd
    · cases hd
    · obtain rfl := Option.some.inj hd
      obtain ⟨a,hp,ha⟩ := Fallible.bind_ok.mp ha
      obtain ⟨m,rfl,h₁,h₂⟩ := AckBundles.apply_ok hp
      rw [Fallible.pure_ok] at ha
      subst ha
      refine ⟨tables_setPending hw.tables ?_,hw.sidechains,hw.proposals⟩
      intro s
      cases hs : ab.actions.get? s with
      | none => simp [FinMap.contains,h₂ s hs]
      | some a =>
        obtain ⟨p,q,hp,-,hq⟩ := h₁ s a hs
        simp [FinMap.contains,hp,hq]

/-- An accepted message can be taken back. -/
theorem undo_message {d : CoinbaseMsg} (hw : t.Wf)
    (hh : Handled h t height parent prevDiff msg e (some d)) (ha : d.apply t height = .ok t') :
    d.undo t' = .ok t := by
  generalize hd : some d = od at hh
  cases hh with
  | m1Known | m2Unknown | m2SameBlock | m7 => cases hd
  | @m1New s description new =>
    obtain rfl := Option.some.inj hd
    obtain rfl := Except.ok.inj ha
    exact congrArg Except.ok (NewSidechainProposal.undo_apply new)
  | @m2 s dh sc pending earlier votes =>
    obtain rfl := Option.some.inj hd
    refine AckSidechainProposal.undo_apply pending (hw.proposals _ _ pending).2 ?_ ha
    have hpend := hw.tables.pending s
    unfold AckSidechainProposal.Fits
    rcases ackEffect_cases (h := h) (t.activeSidechains.sidechain.get? s) (sc.status.voteCount+1)
      (height-sc.status.proposalHeight) with he | ⟨prev,hprev,he⟩ | ⟨hnone,he⟩
    · simp only [he]
    · simp only [he]
      exact ⟨hprev,hpend.trans (by simp [FinMap.contains,hprev])⟩
    · simp only [he]
      refine ⟨hnone,(FinMap.contains_false_iff _ _).mp (hpend.trans ?_)⟩
      simp [FinMap.contains,hnone]
  | @m3 s m6id p active pending new =>
    obtain rfl := Option.some.inj hd
    obtain ⟨a,hp,ha⟩ := Fallible.bind_ok.mp ha
    rw [Fallible.pure_ok] at ha
    subst ha
    have hu : ProposeBundle.undo ⟨s,m6id⟩ a = .ok t.activeSidechains :=
      ProposeBundle.undo_apply (fun q hq => by
        obtain rfl := Option.some.inj (pending.symm.trans hq)
        exact new) hp
    exact Fallible.bind_ok.mpr ⟨_,hu,rfl⟩
  | @m4 m4 ab votes =>
    split at hd
    · cases hd
    · obtain rfl := Option.some.inj hd
      obtain ⟨a,hp,ha⟩ := Fallible.bind_ok.mp ha
      rw [Fallible.pure_ok] at ha
      subst ha
      have hu := AckBundles.undo_apply (made_handleM4AckBundles votes).fits hp
      exact Fallible.bind_ok.mpr ⟨_,hu,rfl⟩

/-- The messages of a coinbase, read one after another. -/
inductive Ran (h : BlockHandler) (height : ℕ) (parent : BlockHash) (prevDiff : Option Diff.Block)
    (t₀ : ConsensusDbs) : List CoinbaseMessage → ConsensusDbs → List CoinbaseMsg → Prop
  | start : Ran h height parent prevDiff t₀ [] t₀ []
  | ignored {msgs : List CoinbaseMessage} {t : ConsensusDbs} {ds : List CoinbaseMsg}
      {msg : CoinbaseMessage} {e : Option CoinbaseMessageEvent}
      (ran : Ran h height parent prevDiff t₀ msgs t ds)
      (handled : Handled h t height parent prevDiff msg e none) :
      Ran h height parent prevDiff t₀ (msgs++[msg]) t ds
  | applied {msgs : List CoinbaseMessage} {t t' : ConsensusDbs} {ds : List CoinbaseMsg}
      {msg : CoinbaseMessage} {e : Option CoinbaseMessageEvent} {d : CoinbaseMsg}
      (ran : Ran h height parent prevDiff t₀ msgs t ds)
      (handled : Handled h t height parent prevDiff msg e (some d))
      (apply : d.apply t height = .ok t') :
      Ran h height parent prevDiff t₀ (msgs++[msg]) t' (ds++[d])

section Ran

variable {t₀ : ConsensusDbs} {msgs : List CoinbaseMessage} {ds : List CoinbaseMsg}

theorem ran_wf (hr : Ran h height parent prevDiff t₀ msgs t ds) (hw : t₀.Wf) : t.Wf := by
  induction hr with
  | start => exact hw
  | ignored _ _ ih => exact ih
  | applied _ hh ha ih => exact wf_message ih hh ha

theorem ran_undo (hr : Ran h height parent prevDiff t₀ msgs t ds) (hw : t₀.Wf) :
    Undo.UndoesAll CoinbaseMsg.undo Eq ds t t₀ := by
  induction hr with
  | start => exact Undo.undoesAll_nil t₀
  | ignored _ _ ih => exact ih
  | @applied msgs t t' ds msg e d hr hh ha ih =>
    refine Undo.undoesAll_snoc ih ?_
    rintro _ rfl
    exact ⟨t,undo_message (ran_wf hr hw) hh ha,rfl⟩

theorem ran_frame (hr : Ran h height parent prevDiff t₀ msgs t ds) :
    SameTreasury t.activeSidechains t₀.activeSidechains ∧
    ∀ s, t₀.activeSidechains.sidechain.contains s = true →
      t.activeSidechains.sidechain.contains s = true := by
  induction hr with
  | start => exact ⟨.refl _,fun s hs => hs⟩
  | ignored _ _ ih => exact ih
  | applied _ _ ha ih =>
    obtain ⟨h₁,h₂⟩ := message_frame ha
    exact ⟨h₁.trans ih.1,fun s hs => h₂ s (ih.2 s hs)⟩

def NoDeposits (events : List BlockEvent) : Prop := ∀ ds, .deposits ds ∉ events

omit [Bitcoin] in
theorem noDeposits_append {a b : List BlockEvent} (ha : NoDeposits a) (hb : NoDeposits b) :
    NoDeposits (a++b) := by
  intro ds hm
  rcases List.mem_append.mp hm with hm | hm
  · exact ha ds hm
  · exact hb ds hm

theorem noDeposits_messageEvent {proposals : FinMap SidechainProposalId ℕ}
    {event : Option CoinbaseMessageEvent} {events : List BlockEvent}
    (hm : messageEvent proposals event = .ok events) : NoDeposits events := by
  intro ds hmem
  match event with
  | none =>
    obtain rfl := Except.ok.inj hm
    cases hmem
  | some (.newSidechainProposal sc) =>
    obtain ⟨vout,-,hm⟩ := Fallible.bind_ok.mp hm
    rw [Fallible.pure_ok] at hm
    subst hm
    simp at hmem
  | some (.withdrawalBundle event) =>
    obtain rfl := Except.ok.inj hm
    simp at hmem

theorem connectMessage_ok {proposals : FinMap SidechainProposalId ℕ} {acc acc' : CoinbaseState}
    {m : CoinbaseMessage × ℕ}
    (hc : h.connectMessage height parent prevDiff proposals acc m = .ok acc') :
    ∃ event events, messageEvent proposals event = .ok events ∧ acc'.events = acc.events++events ∧
      ((Handled h acc.dbs height parent prevDiff m.1 event none ∧ acc'.dbs = acc.dbs ∧
          acc'.diffs = acc.diffs) ∨
        ∃ d, Handled h acc.dbs height parent prevDiff m.1 event (some d) ∧
          d.apply acc.dbs height = .ok acc'.dbs ∧ acc'.diffs = acc.diffs++[d]) := by
  obtain ⟨⟨event,diff,accepted⟩,hh,hc⟩ := Fallible.bind_ok.mp hc
  obtain ⟨events,he,hc⟩ := Fallible.bind_ok.mp hc
  refine ⟨event,events,he,?_⟩
  have hh := handled_of_handle hh
  cases diff with
  | none =>
    obtain rfl := Except.ok.inj hc
    exact ⟨rfl,.inl ⟨hh,rfl,rfl⟩⟩
  | some d =>
    obtain ⟨dbs,ha,hc⟩ := Fallible.bind_ok.mp hc
    rw [Fallible.pure_ok] at hc
    subst hc
    exact ⟨rfl,.inr ⟨d,hh,ha,rfl⟩⟩

theorem ran_foldlM {proposals : FinMap SidechainProposalId ℕ} {acc : CoinbaseState}
    {l : List (CoinbaseMessage × ℕ)}
    (hf : l.foldlM (h.connectMessage height parent prevDiff proposals) ⟨t₀,.empty,[],[]⟩ = .ok acc) :
    Ran h height parent prevDiff t₀ (l.map Prod.fst) acc.dbs acc.diffs ∧ NoDeposits acc.events := by
  refine Fallible.foldlM_prefix (fun done acc =>
    Ran h height parent prevDiff t₀ (done.map Prod.fst) acc.dbs acc.diffs ∧ NoDeposits acc.events)
    hf ⟨.start,by simp [NoDeposits]⟩ ?_
  rintro done m rest acc acc' - ⟨hr,hn⟩ hc
  obtain ⟨event,events,he,hev,hcase⟩ := connectMessage_ok hc
  rw [List.map_append,List.map_singleton]
  refine ⟨?_,by rw [hev]; exact noDeposits_append hn (noDeposits_messageEvent he)⟩
  rcases hcase with ⟨hh,hd,hds⟩ | ⟨d,hh,ha,hds⟩
  · rw [hd,hds]; exact .ignored hr hh
  · rw [hds]; exact .applied hr hh ha

end Ran

end Messages

theorem foldlM_abstain (l : List (SidechainNumber × UInt16)) (d : Diff.AckBundles)
    (hl : ∀ e ∈ l, e.2 = M4AckBundles.abstainTwoBytes) : l.foldlM (handleM4Vote t) d = .ok d := by
  induction l with
  | nil => rfl
  | cons e l ih =>
    have he := hl e (List.mem_cons_self ..)
    rw [List.foldlM_cons,handleM4Vote,if_pos he,Fallible.ok_bind]
    exact ih (fun e' he' => hl e' (List.mem_cons_of_mem _ he'))

theorem connectMissingM4_eq (m4Exists : Bool) (acc : CoinbaseState) :
    connectMissingM4 height parent prevDiff m4Exists acc = .ok acc := by
  cases m4Exists with
  | true => rfl
  | false =>
    have hlen : ((List.replicate acc.dbs.activeSidechains.sidechain.toList.length
        M4AckBundles.abstainOneByte).map widenVote).length =
        acc.dbs.activeSidechains.numbers.length := by
      simp [numbers,FinMap.keys]
    have hd : handleM4AckBundles acc.dbs parent prevDiff (.oneByte (List.replicate
        acc.dbs.activeSidechains.sidechain.toList.length M4AckBundles.abstainOneByte)) =
        .ok .default := by
      refine Fallible.bind_ok.mpr ⟨(),by rw [Fallible.ensure_ok]; exact decide_eq_true hlen,?_⟩
      apply foldlM_abstain
      intro e he
      obtain ⟨v,hv,hw⟩ := List.mem_map.mp (List.of_mem_zip he).2
      rw [List.eq_of_mem_replicate hv] at hw
      exact hw.symm
    have hempty : Diff.AckBundles.default.actions.isEmpty = true := (FinMap.isEmpty_iff _).mpr rfl
    simp only [connectMissingM4,Bool.false_eq_true,if_false,hd,Fallible.ok_bind,hempty,if_true]
    rfl

def expired (h : BlockHandler) (height : ℕ) (e : M6id × PendingM6idInfo) : Bool :=
  h.thresholds.withdrawalBundleMaxAge.toNat < height-e.2.proposalHeight

theorem failedPositions_eq (p : PendingM6ids) :
    h.failedPositions p height = FailedM6ids.positionsFrom (h.expired height) p.entries 0 := rfl

def failedOf (h : BlockHandler) (height : ℕ) (p : PendingM6ids) : Option FailedPositions :=
  if (h.failedPositions p height).isEmpty then none else some (h.failedPositions p height)

/-- The failed bundles of every active slot are recorded. -/
theorem handleFailedM6ids_ok {dbs : ActiveSidechainDbs} (ht : dbs.Tables) :
    ∃ d, h.handleFailedM6ids dbs height = .ok d ∧
      ∀ s, d.failed.get? s = (dbs.pendingM6ids.get? s).bind (h.failedOf height) := by
  have hex := Fallible.foldlM_succeeds (l := dbs.numbers) (s := (⟨.empty⟩ : Diff.FailedM6ids))
    (f := fun d s => do
      let pending ← Database.get dbs.pendingM6ids .pendingM6ids s
      let failed := h.failedPositions pending height
      return if failed.isEmpty then d else ⟨d.failed.insert s failed⟩)
    (fun done d => ∀ s, d.failed.get? s =
      if s ∈ done then (dbs.pendingM6ids.get? s).bind (h.failedOf height) else none)
    (by simp) ?_
  · obtain ⟨d,hd,hget⟩ := hex
    refine ⟨d,hd,fun s => ?_⟩
    rw [hget s]
    by_cases hs : s ∈ dbs.numbers
    · rw [if_pos hs]
    · have hnone : dbs.pendingM6ids.get? s = none := by
        rw [numbers,FinMap.mem_keys,← ht.pending s] at hs
        exact (FinMap.contains_false_iff _ _).mp (by simpa using hs)
      rw [if_neg hs,hnone,Option.bind_none]
  · intro done s rest d hl hd
    have hact : dbs.sidechain.contains s = true := FinMap.mem_keys.mp (by
      rw [← numbers,hl]; simp)
    obtain ⟨p,hp⟩ := pending_of_active ht hact
    have hnew : s ∉ done := by
      have hn := FinMap.nodup_keys dbs.sidechain
      rw [← numbers,hl,List.nodup_append] at hn
      intro hm
      exact hn.2.2 s hm s (List.mem_cons_self ..) rfl
    refine ⟨_,Fallible.bind_ok.mpr ⟨p,(Database.get_ok _ _ _ _).mpr hp,rfl⟩,fun s' => ?_⟩
    by_cases hss : s' = s
    · subst hss
      have hmem : s' ∈ done++[s'] := by simp
      simp only [hmem,if_true,hp,Option.bind_some,failedOf]
      split
      · rw [hd,if_neg hnew]
      · exact FinMap.get?_insert_self _ _ _
    · have hmem : s' ∈ done++[s] ↔ s' ∈ done := by simp [hss]
      simp only [hmem]
      split
      · rw [hd]
      · rw [FinMap.get?_insert_ne _ _ (Ne.symm hss),hd]

/-- Recording and removing the failed bundles keeps the others in their order. -/
theorem failedM6ids_apply {dbs dbs' : ActiveSidechainDbs} {d : Diff.FailedM6ids} (ht : dbs.Tables)
    (hd : h.handleFailedM6ids dbs height = .ok d) (ha : d.apply dbs = .ok dbs') :
    ∃ m, dbs' = { dbs with pendingM6ids := m } ∧
      (∀ s p, dbs.pendingM6ids.get? s = some p → ∃ q, m.get? s = some q ∧
        q.entries = p.entries.filter (fun e => !h.expired height e)) ∧
      ∀ s, dbs.pendingM6ids.get? s = none → m.get? s = none := by
  obtain ⟨d',hd',hget⟩ : ∃ d, h.handleFailedM6ids dbs height = .ok d ∧
      ∀ s, d.failed.get? s = (dbs.pendingM6ids.get? s).bind (h.failedOf height) :=
    handleFailedM6ids_ok ht
  obtain rfl := Except.ok.inj (hd.symm.trans hd')
  obtain ⟨m,rfl,h₁,h₂⟩ := Diff.FailedM6ids.apply_ok ha
  refine ⟨m,rfl,?_,?_⟩
  · intro s p hp
    have hs := hget s
    rw [hp,Option.bind_some,failedOf] at hs
    by_cases hem : (h.failedPositions p height).isEmpty = true
    · rw [if_pos hem] at hs
      refine ⟨p,by rw [h₂ s hs,hp],?_⟩
      have hnil := List.isEmpty_iff.mp hem
      rw [failedPositions_eq] at hnil
      symm
      apply List.filter_eq_self.mpr
      intro e he
      by_contra hbad
      obtain ⟨i,hi⟩ := List.mem_iff_getElem?.mp he
      have hz : (e,i) ∈ p.entries.zipIdx 0 := by simpa [List.mem_zipIdx_iff_getElem?] using hi
      have : (i,e.1,e.2) ∈ FailedM6ids.positionsFrom (h.expired height) p.entries 0 :=
        List.mem_map.mpr ⟨(e,i),List.mem_filter.mpr ⟨hz,by simpa using hbad⟩,rfl⟩
      rw [hnil] at this
      cases this
    · rw [if_neg hem] at hs
      obtain ⟨p',q,hp',hq,hm⟩ := h₁ s _ hs
      obtain rfl := Option.some.inj (hp.symm.trans hp')
      obtain ⟨q',hq',he⟩ := FailedM6ids.removeFailedWithdrawals_eq (h.expired height) p
      rw [failedPositions_eq,hq'] at hq
      obtain rfl := Except.ok.inj hq
      exact ⟨q',hm,he⟩
  · intro s hp
    have hs := hget s
    rw [hp,Option.bind_none] at hs
    rw [h₂ s hs,hp]

theorem failedM6ids_undo {dbs dbs' : ActiveSidechainDbs} {d : Diff.FailedM6ids} (ht : dbs.Tables)
    (hd : h.handleFailedM6ids dbs height = .ok d) (ha : d.apply dbs = .ok dbs') :
    d.undo dbs' = .ok dbs := by
  obtain ⟨d',hd',hget⟩ : ∃ d, h.handleFailedM6ids dbs height = .ok d ∧
      ∀ s, d.failed.get? s = (dbs.pendingM6ids.get? s).bind (h.failedOf height) :=
    handleFailedM6ids_ok ht
  obtain rfl := Except.ok.inj (hd.symm.trans hd')
  refine FailedM6ids.undo_apply ?_ ha
  intro s f p hf hp
  rw [hget s,hp,Option.bind_some,failedOf] at hf
  split at hf
  · cases hf
  · exact ⟨h.expired height,(Option.some.inj hf).symm⟩

theorem noDeposits_failedM6ids (d : Diff.FailedM6ids) : NoDeposits d.events := by
  intro ds hm
  simp [Diff.FailedM6ids.events] at hm

end BlockHandler
end Bip300301Enforcer
