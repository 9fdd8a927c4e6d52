import Bip300301Enforcer.RepeatedVotes
import Bip300301Enforcer.Lib.FloorWalk

/-! The votes that the `M4` messages of a chain cast on the bundles of a slot, block after block.
The stored diffs record exactly these. -/
namespace Bip300301Enforcer
open Lib Chain BlockHandler PendingM6ids Diff

/-- The vote of a block on a slot, with the pending bundles that it meets. -/
structure Ballot where
  pending : PendingM6ids
  vote : BundleVote

namespace BundleVote

variable {vote : BundleVote} {p : PendingM6ids}

def on (vote : BundleVote) (m6id : M6id) : Option Vote :=
  match vote with
  | .upvote target => some (if target = m6id then .up else .down)
  | .alarm => some .down
  | .abstain => none

theorem action_onto : (vote.onto p).action p = vote.action p := by
  cases vote with
  | upvote m6id =>
    simp only [onto]
    split
    · rfl
    · rename_i hc
      rw [action,if_neg hc]
      rfl
  | alarm => rfl
  | abstain => rfl

end BundleVote

namespace Ballot

def abstain : Ballot := ⟨.empty,.abstain⟩

def action (ballot : Ballot) : Option AckBundleAction := ballot.vote.action ballot.pending

/-- The ballot of the block before, cast again. It is lost if it had no effect there. -/
def again (last : Option Ballot) (p : PendingM6ids) : Ballot :=
  match last with
  | some last => ⟨p,if last.vote.Effective last.pending then last.vote.onto p else .abstain⟩
  | none => ⟨p,.abstain⟩

theorem action_again {last : Option Ballot} {p : PendingM6ids}
    (hlow : ∀ m6id info, p.get? m6id = some info → info.voteCount < 0xFFFF) :
    (again last p).action = (last.bind action).bind (repeated p) := by
  cases last with
  | none => rfl
  | some last =>
    rw [Option.bind_some,action,action,repeated_action hlow,again]
    simp only
    split
    · exact BundleVote.action_onto
    · rfl

def Fits (ballot : Ballot) : Prop :=
  ∀ m6id, ballot.vote = .upvote m6id → ballot.pending.contains m6id = true

theorem fits_again (last : Option Ballot) (p : PendingM6ids) : (again last p).Fits := by
  intro m6id hv
  cases last with
  | none => cases hv
  | some last =>
    simp only [again] at hv ⊢
    split at hv
    · unfold BundleVote.onto at hv
      split at hv
      · split at hv
        · rename_i hc
          obtain rfl := BundleVote.upvote.inj hv
          exact hc
        · cases hv
      · rename_i hne
        exact absurd hv (hne m6id)
    · cases hv

end Ballot

section Casts
open BundleVote

variable {p : PendingM6ids} {t : ConsensusDbs} {s : SidechainNumber} {m4 : M4AckBundles}
  {numbers : List SidechainNumber} {vote : BundleVote}

theorem M4AckBundles.Casts.contains {m6id : M6id} (hc : m4.Casts numbers s p (.upvote m6id)) :
    p.contains m6id = true := by
  have hcode : ∀ code, ofCode p code = some (.upvote m6id) → p.contains m6id = true := by
    intro code hcode
    unfold ofCode at hcode
    split at hcode
    · cases hcode
    · split at hcode
      · cases hcode
      · obtain ⟨m,hkey,he⟩ := Option.map_eq_some_iff.mp hcode
        obtain rfl := BundleVote.upvote.inj he
        exact OrderMap.contains_iff.mpr (List.mem_of_getElem? hkey)
  cases m4 with
  | leadingBy50 =>
    obtain ⟨info,hi,-⟩ := (hc.1 m6id).mp rfl
    rw [OrderMap.contains,hi]
    rfl
  | repeatPrevious =>
    obtain ⟨codes,code,hr,-⟩ := hc
    cases hr
  | oneByte upvotes =>
    obtain ⟨codes,code,-,-,hv⟩ := hc
    exact hcode code hv
  | twoBytes upvotes =>
    obtain ⟨codes,code,-,-,hv⟩ := hc
    exact hcode code hv

variable [Bitcoin]

omit [Bitcoin] in
/-- An `M4` that casts its own votes records them. -/
theorem M4AckBundles.Casts.action {parent : BlockHash} {prevDiff : Option Diff.Block}
    {d : AckBundles} (hp : t.activeSidechains.pendingM6ids.get? s = some p)
    (hlow : ∀ m6id info, p.get? m6id = some info → info.voteCount < 0xFFFF)
    (hd : handleM4AckBundles t parent prevDiff m4 = .ok d) (hs : s ∈ t.activeSidechains.numbers)
    (hc : m4.Casts t.activeSidechains.numbers s p vote) : d.actions.get? s = vote.action p := by
  have hcodes : (∃ codes code, readCodes m4 = some codes ∧
      (s,code) ∈ t.activeSidechains.numbers.zip codes ∧ ofCode p code = some vote) →
        d.actions.get? s = vote.action p := by
    rintro ⟨codes,code,hr,hm,hv⟩
    rw [handleM4Votes_actions (handleM4AckBundles_codes hr hd) (s,code) hm p hp,
      voteAction_eq hlow hv]
  cases m4 with
  | leadingBy50 =>
    obtain ⟨hleads,halarm⟩ := hc
    obtain ⟨byVotes,hsorted,hleader⟩ := leader_eq p
    have hiff (m6id : M6id) : leader p = some m6id ↔ vote = .upvote m6id := by
      rw [hleader,leaderOf_eq_some hsorted hlow,hleads]
    rw [handleM4LeadingBy50_actions hd s hs p hp]
    cases vote with
    | alarm => exact absurd rfl halarm
    | abstain =>
      have hnone : leader p = none := by
        by_contra hne
        obtain ⟨m6id,hm⟩ := Option.ne_none_iff_exists'.mp hne
        cases (hiff m6id).mp hm
      rw [hnone]
      rfl
    | upvote m6id =>
      obtain ⟨info,hi,-⟩ := (hleads m6id).mp rfl
      rw [(hiff m6id).mpr rfl,Option.map_some,BundleVote.action,if_pos]
      rw [OrderMap.contains,hi]
      rfl
  | repeatPrevious => exact hcodes hc
  | oneByte upvotes => exact hcodes hc
  | twoBytes upvotes => exact hcodes hc

end Casts

section Ballots

variable [Bitcoin]

/-- The ballot of a block on a slot: its `M4` casts it, or repeats the ballot of the block
before. -/
inductive BallotOf (h : BlockHandler) (D : BlockHash → Option Diff.Block) (s : SidechainNumber)
    (t : ConsensusDbs) (n : ℕ) (b : Block) (last : Option Ballot) : Ballot → Prop
  | silent (read : h.readM4 t n b (D b.header.prevBlockhash) = none) :
      BallotOf h D s t n b last .abstain
  | inactive {m4 : M4AckBundles} {before : ConsensusDbs} {d : AckBundles}
      (read : h.readM4 t n b (D b.header.prevBlockhash) = some (m4,before,d))
      (inactive : before.activeSidechains.pendingM6ids.get? s = none) :
      BallotOf h D s t n b last .abstain
  | own {m4 : M4AckBundles} {before : ConsensusDbs} {d : AckBundles} {p : PendingM6ids}
      {vote : BundleVote} (read : h.readM4 t n b (D b.header.prevBlockhash) = some (m4,before,d))
      (pending : before.activeSidechains.pendingM6ids.get? s = some p)
      (cast : m4.Casts before.activeSidechains.numbers s p vote) :
      BallotOf h D s t n b last ⟨p,vote⟩
  | again {before : ConsensusDbs} {d : AckBundles} {p : PendingM6ids}
      (read : h.readM4 t n b (D b.header.prevBlockhash) = some (.repeatPrevious,before,d))
      (pending : before.activeSidechains.pendingM6ids.get? s = some p) :
      BallotOf h D s t n b last (.again last p)

inductive Ballots (h : BlockHandler) (V : Chain → Block → Prop) (D : BlockHash → Option Diff.Block)
    (s : SidechainNumber) : Chain → ConsensusDbs → List Ballot → Prop
  | start {t : ConsensusDbs} (base : Base False (Fresh V) [] t) : Ballots h V D s [] t []
  | block {c : Chain} {t t' : ConsensusDbs} {b : Block} {coinbase : Transaction}
      {txs : List Transaction} {res : ProcessedBlock} {l : List Ballot} {ballot : Ballot}
      (ballots : Ballots h V D s c t l) (valid : V c b)
      (accepted : Accepted h D c t b coinbase txs res) (stored : D b.blockHash = some res.diff)
      (like : ConsensusDbs.Like (Fresh V) t' res.dbs)
      (cast : BallotOf h D s t c.length b l.head? ballot) : Ballots h V D s (b::c) t' (ballot::l)

variable {h : BlockHandler} {V : Chain → Block → Prop} {D : BlockHash → Option Diff.Block}
  {s : SidechainNumber} {c : Chain} {t before : ConsensusDbs} {b : Block} {l : List Ballot}
  {m4 : M4AckBundles} {d : AckBundles} {last : Option Ballot} {ballot : Ballot} {n : ℕ}

theorem BallotOf.fits (hb : BallotOf h D s t n b last ballot) : ballot.Fits := by
  cases hb with
  | silent | inactive =>
    intro m6id hv
    cases hv
  | @own m4 before d p vote _ _ hc =>
    rintro m6id rfl
    exact hc.contains
  | again => exact Ballot.fits_again last _

theorem Ballots.grown (hb : Ballots h V D s c t l) : Grown h V False D c t := by
  induction hb with
  | start hbase => exact .base hbase
  | block _ hv ha hs hl _ ih => exact .connect ih hv ha hs hl

theorem Grown.readM4_tables {prevDiff : Option Diff.Block} (hg : Grown h V False D c t)
    (hr : h.readM4 t n b prevDiff = some (m4,before,d)) : before.activeSidechains.Tables := by
  obtain ⟨-,coinbase,scan,done,i,rest,acc,-,-,-,hdone,rfl,-⟩ := readM4_some hr
  exact (ran_wf (ran_foldlM hdone).1 hg.wf.1).tables

theorem Grown.exists_ballotOf (hg : Grown h V False D c t)
    (hmax : h.thresholds.withdrawalBundleMaxAge.toNat+3 < 0xFFFF) (s : SidechainNumber) (b : Block)
    (last : Option Ballot) : ∃ ballot, BallotOf h D s t c.length b last ballot := by
  cases hr : h.readM4 t c.length b (D b.header.prevBlockhash) with
  | none => exact ⟨_,.silent hr⟩
  | some r =>
    obtain ⟨m4,before,d⟩ := r
    cases hp : before.activeSidechains.pendingM6ids.get? s with
    | none => exact ⟨_,.inactive hr hp⟩
    | some p =>
      by_cases hm4 : m4 = .repeatPrevious
      · subst hm4
        exact ⟨_,.again hr hp⟩
      · have ht := hg.readM4_tables hr
        obtain ⟨_,-,-,-,hact⟩ :=
          m4_follows ht (hg.readM4_low hmax hr) hm4 (readM4_resolved hr)
        have hs : before.activeSidechains.sidechain.contains s = true := by
          rw [← ht.pending s]
          exact (FinMap.contains_iff _ _).mpr ⟨p,hp⟩
        obtain ⟨p',q,vote,hp',-,hcast,-⟩ := hact s hs
        obtain rfl := Option.some.inj (hp.symm.trans hp')
        exact ⟨_,.own hr hp hcast⟩

theorem Grown.ballots (hg : Grown h V False D c t)
    (hmax : h.thresholds.withdrawalBundleMaxAge.toNat+3 < 0xFFFF) (s : SidechainNumber) :
    ∃ l, Ballots h V D s c t l := by
  induction hg with
  | base hb =>
    obtain ⟨rfl,-⟩ := hb.empty not_false
    exact ⟨[],.start hb⟩
  | connect hg hv ha hs hl ih =>
    obtain ⟨l,hb⟩ := ih
    obtain ⟨ballot,hcast⟩ := hg.exists_ballotOf hmax s _ l.head?
    exact ⟨ballot::l,.block hb hv ha hs hl hcast⟩

def storedAction (D : BlockHash → Option Diff.Block) (s : SidechainNumber) (hash : BlockHash) :
    Option AckBundleAction :=
  ((D hash).bind ackBundlesOf).bind (fun d => d.actions.get? s)

theorem BallotOf.recorded {coinbase : Transaction} {txs : List Transaction} {res : ProcessedBlock}
    (hb : BallotOf h D s t c.length b last ballot) (hg : Grown h V False D c t)
    (hmax : h.thresholds.withdrawalBundleMaxAge.toNat+3 < 0xFFFF)
    (ha : Accepted h D c t b coinbase txs res) (hnil : c = [] → last = none)
    (hlast : c ≠ [] → storedAction D s c.parentHash = last.bind Ballot.action) :
    (ackBundlesOf res.diff).bind (fun d => d.actions.get? s) = ballot.action := by
  have hread : ∀ m4 before d, h.readM4 t c.length b (D b.header.prevBlockhash) =
      some (m4,before,d) → (ackBundlesOf res.diff).bind (fun d => d.actions.get? s) =
        d.actions.get? s := by
    intro m4 before d hr
    rw [ha.recordedVotes hr]
    split
    · rename_i hemp
      rw [(FinMap.isEmpty_iff _).mp hemp,FinMap.get?_empty]
      rfl
    · rfl
  cases hb with
  | silent hr =>
    rw [ha.recordedVotes_none hr]
    rfl
  | @inactive m4 before d hr hp =>
    have hd := readM4_resolved hr
    rw [hread m4 before d hr]
    by_contra hne
    obtain ⟨a,hact⟩ := Option.ne_none_iff_exists'.mp hne
    obtain ⟨p,hp',-⟩ := made_handleM4AckBundles hd s a hact
    rw [hp] at hp'
    cases hp'
  | @own m4 before d p vote hr hp hcast =>
    have hd := readM4_resolved hr
    have hs : s ∈ before.activeSidechains.numbers := by
      rw [ActiveSidechainDbs.numbers,FinMap.mem_keys,← (hg.readM4_tables hr).pending s]
      exact (FinMap.contains_iff _ _).mpr ⟨p,hp⟩
    rw [hread m4 before d hr]
    exact hcast.action hp (hg.readM4_low hmax hr s p hp) hd hs
  | @again before d p hr hp =>
    have hd := readM4_resolved hr
    rw [hread _ before d hr,Ballot.action_again (hg.readM4_low hmax hr s p hp)]
    by_cases hc : c = []
    · rw [hnil hc]
      rw [ha.parent,parentHash_eq_zeros.mpr hc] at hd
      simp only [handleM4AckBundles,handleM4RepeatPrevious,if_pos] at hd
      obtain rfl := Except.ok.inj hd
      exact FinMap.get?_empty s
    · have hzero : b.header.prevBlockhash ≠ allZeros := by
        rw [ha.parent]
        exact fun hz => hc (parentHash_eq_zeros.mp hz)
      rw [repeatPrevious_action hzero hd hp,ha.parent,← hlast hc]
      rfl

def RecordsBallot (D : BlockHash → Option Diff.Block) (s : SidechainNumber) (b : Block)
    (ballot : Ballot) : Prop :=
  storedAction D s b.blockHash = ballot.action ∧ ballot.Fits

theorem Ballots.recorded (hb : Ballots h V D s c t l)
    (hmax : h.thresholds.withdrawalBundleMaxAge.toNat+3 < 0xFFFF) :
    List.Forall₂ (RecordsBallot D s) c l := by
  induction hb with
  | start => exact .nil
  | @block c t t' b coinbase txs res l ballot hb hv ha hs hl hcast ih =>
    refine .cons ⟨?_,hcast.fits⟩ ih
    rw [storedAction,hs,Option.bind_some]
    refine hcast.recorded hb.grown hmax ha ?_ ?_
    · rintro rfl
      cases ih
      rfl
    · intro hne
      cases ih with
      | nil => exact absurd rfl hne
      | cons hfirst _ => exact hfirst.1

end Ballots

def given (m6id : M6id) (v : Vote) (l : List Ballot) : ℕ :=
  l.countP (fun ballot => ballot.vote.on m6id = some v)

end Bip300301Enforcer
