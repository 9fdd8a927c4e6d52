import Bip300301Enforcer.PolicyRuns
import Bip300301Enforcer.BlindedM6
import Bip300301Enforcer.Lib.Queue

/-! The proposals and bundles that the block producer has queued. Each read or write of their
tables brings the marks in line with the chain first. -/
namespace Bip300301Enforcer
open Lib Chain Marks

def SidechainProposalRow.id (row : SidechainProposalRow) : SidechainProposalId :=
  ⟨row.sidechainNumber,row.dataHash⟩

def SidechainProposalRow.requeue (tipHeight : Option ℕ) (row : SidechainProposalRow) :
    SidechainProposalRow := { row with minedIn := none, queuedAt := tipHeight }

abbrev BundleId := SidechainNumber × M6id

def BundleProposalRow.id (row : BundleProposalRow) : BundleId := (row.sidechainNumber,row.bundleHash)

def BundleProposalRow.requeue (tipHeight : Option ℕ) (row : BundleProposalRow) : BundleProposalRow :=
  { row with settledIn := none, paidOut := none, queuedAt := tipHeight }

/-- The proposal tables with the columns `data` and `bundle_tx`. -/
structure QueueDb where
  policyTip : Option BlockHash
  sidechainProposals : List (SidechainProposalRow × List UInt8)
  bundleProposals : List (BundleProposalRow × BlindedM6)
deriving DecidableEq

inductive QueueError
  | reconcile (e : ReconcileError)
  /-- The key of a row is taken. -/
  | constraint
  | alreadyPaidOut (m6id : M6id)
deriving DecidableEq

namespace QueueDb

def marks (db : QueueDb) : PolicyDb :=
  ⟨db.policyTip,db.sidechainProposals.map Prod.fst,db.bundleProposals.map Prod.fst⟩

/-- The tables after their marks are updated. -/
def setMarks (db : QueueDb) (marks : PolicyDb) : QueueDb where
  policyTip := marks.policyTip
  sidechainProposals := marks.sidechainProposals.zip (db.sidechainProposals.map Prod.snd)
  bundleProposals := marks.bundleProposals.zip (db.bundleProposals.map Prod.snd)

variable [Bitcoin]

def startCursor (db : QueueDb) (dbs : Dbs) : Res QueueDb :=
  match db.policyTip, dbs.currentChainTip with
  | some _, _ => .ok db
  | none, none => .ok db
  | none, some tip => do
    let tipHeight := (← dbs.blockHashes.getHeaderInfo tip).height
    return {
      policyTip := some tip
      sidechainProposals := db.sidechainProposals.map
        (fun e => ({ e.1 with queuedAt := e.1.queuedAt.or (some tipHeight) },e.2))
      bundleProposals := db.bundleProposals.map
        (fun e => ({ e.1 with queuedAt := e.1.queuedAt.or (some tipHeight) },e.2)) }

/-- Use the tables once their marks are in line with the chain. -/
def reconciled {α : Type} (db : QueueDb) (params : NetworkParams) (dbs : Dbs)
    (f : Option ℕ → QueueDb → Except QueueError (α × QueueDb)) : Except QueueError (α × QueueDb) := do
  let (tipHeight,marks) ← (db.marks.reconcile params dbs).mapError .reconcile
  f tipHeight (db.setMarks marks)

/-- The queued sidechains that are not mined. -/
def getOurSidechainProposals (db : QueueDb) (params : NetworkParams) (dbs : Dbs) :
    Except QueueError (List SidechainProposal × QueueDb) :=
  db.reconciled params dbs (fun _ db =>
    .ok ((db.sidechainProposals.filter (fun e => e.1.minedIn = none)).map
      (fun e => ⟨e.1.sidechainNumber,e.2⟩),db))

def pushBundle (m : FinMap SidechainNumber (List (M6id × BlindedM6)))
    (e : BundleProposalRow × BlindedM6) : FinMap SidechainNumber (List (M6id × BlindedM6)) :=
  m.insert e.1.sidechainNumber ((m.get? e.1.sidechainNumber).getD []++[(e.1.bundleHash,e.2)])

/-- The queued bundles that are not settled. -/
def getBundleProposals (db : QueueDb) (params : NetworkParams) (dbs : Dbs) :
    Except QueueError (FinMap SidechainNumber (List (M6id × BlindedM6)) × QueueDb) :=
  db.reconciled params dbs (fun _ db =>
    .ok ((db.bundleProposals.filter (fun e => e.1.settledIn = none)).foldl pushBundle .empty,db))

def storeProposal (proposal : SidechainProposal) (tipHeight : Option ℕ) (db : QueueDb) :
    Except QueueError (Unit × QueueDb) :=
  let mined := fun e : SidechainProposalRow × List UInt8 =>
    e.1.id = proposal.computeId ∧ e.1.minedIn ≠ none
  if db.sidechainProposals.any mined then
    let rows := db.sidechainProposals.map
      (fun e => if mined e then (e.1.requeue tipHeight,e.2) else e)
    .ok ((),{ db with sidechainProposals := rows })
  else if db.sidechainProposals.any (fun e => e.1.id = proposal.computeId) then .error .constraint
  else
    let row := ⟨proposal.sidechainNumber,sha256d proposal.description,tipHeight,none⟩
    .ok ((),{ db with sidechainProposals := db.sidechainProposals++[(row,proposal.description)] })

def proposeSidechain (db : QueueDb) (params : NetworkParams) (dbs : Dbs)
    (proposal : SidechainProposal) : Except QueueError (Unit × QueueDb) :=
  db.reconciled params dbs (storeProposal proposal)

/-- Queue a bundle, or queue a failed one again. One that was paid out is refused. -/
def storeBundle (s : SidechainNumber) (blindedM6 : BlindedM6) (tipHeight : Option ℕ) (db : QueueDb) :
    Except QueueError (M6id × QueueDb) :=
  let m6id := blindedM6.computeM6id
  match db.bundleProposals.find? (fun e => e.1.id = (s,m6id)) with
  | some e =>
    if e.1.paidOut = some true then .error (.alreadyPaidOut m6id)
    else
      let rows := db.bundleProposals.map
        (fun e => if e.1.id = (s,m6id) then (e.1.requeue tipHeight,e.2) else e)
      .ok (m6id,{ db with bundleProposals := rows })
  | none =>
    let row := ⟨s,m6id,tipHeight,none,none⟩
    .ok (m6id,{ db with bundleProposals := db.bundleProposals++[(row,blindedM6)] })

def putWithdrawalBundle (db : QueueDb) (params : NetworkParams) (dbs : Dbs) (s : SidechainNumber)
    (blindedM6 : BlindedM6) : Except QueueError (M6id × QueueDb) :=
  db.reconciled params dbs (storeBundle s blindedM6)

end QueueDb

section Rows

variable {db db' : PolicyDb} {dbs : Dbs} {params : NetworkParams} {n : Option ℕ}

/-- Only marks differ. -/
structure PolicyDb.SameRows (db db' : PolicyDb) : Prop where
  proposals : ∃ f : SidechainProposalRow → SidechainProposalRow,
    (∀ r, (f r).id = r.id ∧ (f r).queuedAt = r.queuedAt) ∧
      db'.sidechainProposals = db.sidechainProposals.map f
  bundles : ∃ f : BundleProposalRow → BundleProposalRow,
    (∀ r, (f r).id = r.id ∧ (f r).queuedAt = r.queuedAt) ∧
      db'.bundleProposals = db.bundleProposals.map f

namespace PolicyDb.SameRows

theorem refl (db : PolicyDb) : db.SameRows db :=
  ⟨⟨id,fun _ => ⟨rfl,rfl⟩,by simp⟩,⟨id,fun _ => ⟨rfl,rfl⟩,by simp⟩⟩

theorem trans {db'' : PolicyDb} (h : db.SameRows db') (h' : db'.SameRows db'') : db.SameRows db'' := by
  obtain ⟨⟨f,hf,he⟩,⟨g,hg,hb⟩⟩ := h
  obtain ⟨⟨f',hf',he'⟩,⟨g',hg',hb'⟩⟩ := h'
  refine ⟨⟨f' ∘ f,fun r => ?_,by rw [he',he,List.map_map]⟩,
    ⟨g' ∘ g,fun r => ?_,by rw [hb',hb,List.map_map]⟩⟩
  · exact ⟨(hf' _).1.trans (hf r).1,(hf' _).2.trans (hf r).2⟩
  · exact ⟨(hg' _).1.trans (hg r).1,(hg' _).2.trans (hg r).2⟩

theorem foldl {α : Type} {f : PolicyDb → α → PolicyDb}
    (hf : ∀ (db : PolicyDb) x, db.SameRows (f db x)) (l : List α) (db : PolicyDb) : db.SameRows (l.foldl f db) := by
  induction l generalizing db with
  | nil => exact refl db
  | cons x l ih => exact (hf db x).trans (ih _)

theorem clear (db : PolicyDb) : db.SameRows db.clear :=
  ⟨⟨.clear,fun _ => ⟨rfl,rfl⟩,rfl⟩,⟨.clear,fun _ => ⟨rfl,rfl⟩,rfl⟩⟩

theorem disconnect (db : PolicyDb) (k : BlockHash) : db.SameRows (db.disconnect k) := by
  refine ⟨⟨.disconnect k,fun r => ?_,rfl⟩,⟨.disconnect k,fun r => ?_,rfl⟩⟩
  · unfold SidechainProposalRow.disconnect
    split <;> exact ⟨rfl,rfl⟩
  · unfold BundleProposalRow.disconnect
    split <;> exact ⟨rfl,rfl⟩

variable [Bitcoin]

theorem connect (db : PolicyDb) (e : (BlockHash × BlockInfo) × ℕ) : db.SameRows (db.connect e) := by
  refine (foldl (fun db proposal => ?_) _ db).trans (foldl (fun db event => ?_) _ _)
  · refine ⟨⟨.mark e.1.1 e.2 proposal.computeId,fun r => ?_,rfl⟩,⟨id,fun _ => ⟨rfl,rfl⟩,rfl⟩⟩
    unfold SidechainProposalRow.mark
    split <;> exact ⟨rfl,rfl⟩
  · refine ⟨⟨id,fun _ => ⟨rfl,rfl⟩,rfl⟩,⟨.mark e.1.1 e.2 event,fun r => ?_,rfl⟩⟩
    unfold BundleProposalRow.mark
    split
    · exact ⟨rfl,rfl⟩
    · split <;> exact ⟨rfl,rfl⟩

end PolicyDb.SameRows

def Dbs.tipHeight (dbs : Dbs) : Option ℕ := dbs.currentChainTip.bind dbs.blockHashes.height.get?

theorem chainDiff_tip {start : Option BlockHash} {r : Option ChainDiff}
    (hd : dbs.chainDiff params start = .ok r) :
    (r = none ∧ dbs.currentChainTip = none) ∨ ∃ d, r = some d ∧ dbs.currentChainTip = some d.tip ∧
      dbs.blockHashes.height.get? d.tip = some d.tipHeight := by
  unfold Dbs.chainDiff at hd
  cases ht : dbs.currentChainTip with
  | none => simp only [ht] at hd; exact .inl ⟨(Except.ok.inj hd).symm,rfl⟩
  | some tip =>
    simp only [ht] at hd
    obtain ⟨n,hn,hd⟩ := Fallible.bind_ok.mp hd
    rw [Fallible.mapError_ok,Database.get_ok] at hn
    split at hd <;> simp only [Fallible.bind_ok,Fallible.pure_ok] at hd
    · obtain ⟨k,-,-,-,es,-,rfl⟩ := hd
      exact .inr ⟨_,rfl,rfl,hn⟩
    · obtain ⟨-,-,es,-,rfl⟩ := hd
      exact .inr ⟨_,rfl,rfl,hn⟩

variable [Bitcoin]

theorem reconcile_ok (hrec : db.reconcile params dbs = .ok (n,db')) :
    n = dbs.tipHeight ∧ db.SameRows db' ∧
      (db'.policyTip = dbs.currentChainTip ∨ dbs.currentChainTip = none ∧ db' = db) := by
  unfold PolicyDb.reconcile at hrec
  obtain ⟨r,hdiff,hrec⟩ := Fallible.bind_ok.mp hrec
  rcases chainDiff_tip hdiff with ⟨rfl,ht⟩ | ⟨d,rfl,ht,hn⟩
  · obtain ⟨rfl,rfl⟩ := Prod.mk.inj (Except.ok.inj hrec)
    exact ⟨by simp [Dbs.tipHeight,ht],.refl _,.inr ⟨ht,rfl⟩⟩
  · have hheight : some d.tipHeight = dbs.tipHeight := by simp [Dbs.tipHeight,ht,hn]
    simp only at hrec
    split at hrec
    · rename_i hcursor
      obtain ⟨rfl,rfl⟩ := Prod.mk.inj (Except.ok.inj hrec)
      exact ⟨hheight,.refl _,.inl (hcursor.trans ht.symm)⟩
    · obtain ⟨rfl,rfl⟩ := Prod.mk.inj (Except.ok.inj hrec)
      refine ⟨hheight,?_,.inl ht.symm⟩
      have hclear : db.SameRows (if d.rebuilt then db.clear else db) := by
        split
        · exact .clear db
        · exact .refl db
      have hall := (hclear.trans (.foldl .disconnect d.disconnected _)).trans
        (.foldl .connect (d.connected.zipIdx (d.tipHeight+1-d.connected.length)) _)
      exact ⟨hall.proposals,hall.bundles⟩

end Rows

end Bip300301Enforcer
