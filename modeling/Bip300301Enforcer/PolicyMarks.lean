import Bip300301Enforcer.Ancestors
import Bip300301Enforcer.Reorg
import Bip300301Enforcer.Lib.Marks

/-! The marks that the block producer keeps on its queued proposals and bundles, and how
they follow the chain. -/
namespace Bip300301Enforcer
open Lib Chain Marks

inductive ReconcileError
  | db (err : Error)
  /-- Some of the tables of a block are missing. -/
  | inconsistent (blockHash : BlockHash)
  | missingBlockInfo (blockHash : BlockHash)
deriving DecidableEq

/-- The blocks on the way from one block to the tip, the disconnected ones newest first and
the connected ones oldest first. -/
structure ChainDiff where
  tip : BlockHash
  tipHeight : ℕ
  rebuilt : Bool
  disconnected : List BlockHash
  connected : List (BlockHash × BlockInfo)

namespace BlockHashDbs

def tryGetBlockInfo (dbs : BlockHashDbs) (blockHash : BlockHash) :
    Except ReconcileError (Option BlockInfo) :=
  match dbs.bmmCommitments.get? blockHash with
  | none => .ok none
  | some bmmCommitments => do
    let coinbaseTxid ← Fallible.require (dbs.coinbaseTxid.get? blockHash) (.inconsistent blockHash)
    let events ← Fallible.require (dbs.events.get? blockHash) (.inconsistent blockHash)
    return some ⟨bmmCommitments,coinbaseTxid,events⟩

end BlockHashDbs

namespace Dbs

variable [Bitcoin]

/-- The ancestors of a block that are above another one. -/
def branch (dbs : Dbs) (forkPoint head : BlockHash) : List BlockHash :=
  (dbs.blockHashes.ancestorHeaders head).takeWhile (fun k => k ≠ forkPoint)

def connectedInfo (dbs : Dbs) (blockHash : BlockHash) :
    Except ReconcileError (BlockHash × BlockInfo) := do
  let info ← dbs.blockHashes.tryGetBlockInfo blockHash
  let info ← Fallible.require info (.missingBlockInfo blockHash)
  return (blockHash,info)

/-- The way from a block to the tip. Without a known block, all blocks from the activation
height on are connected. -/
def chainDiff (dbs : Dbs) (params : NetworkParams) (start : Option BlockHash) :
    Except ReconcileError (Option ChainDiff) :=
  match dbs.currentChainTip with
  | none => .ok none
  | some tip => do
    let tipHeight ← (Database.get dbs.blockHashes.height .height tip).mapError .db
    let start := start.filter dbs.blockHashes.header.contains
    let (disconnected,connected) ← match start with
      | some start => do
        let forkPoint ← (dbs.blockHashes.lastCommonAncestor start tip).mapError .db
        pure (dbs.branch forkPoint start,dbs.branch forkPoint tip)
      | none =>
        pure ([],(dbs.blockHashes.ancestorHeaders tip).take
          (tipHeight+1-params.bip300ActivationHeight))
    let connected ← connected.reverse.mapM dbs.connectedInfo
    return some ⟨tip,tipHeight,start.isNone,disconnected,connected⟩

end Dbs

/-- A sidechain that was queued for a proposal, at the tip height that it has to be mined
above. -/
structure SidechainProposalRow where
  sidechainNumber : SidechainNumber
  dataHash : DescriptionHash
  queuedAt : Option ℕ
  minedIn : Option BlockHash
deriving DecidableEq

structure BundleProposalRow where
  sidechainNumber : SidechainNumber
  bundleHash : M6id
  queuedAt : Option ℕ
  settledIn : Option BlockHash
  paidOut : Option Bool
deriving DecidableEq

/-- The proposal tables, and the tip that they are in line with. -/
structure PolicyDb where
  policyTip : Option BlockHash
  sidechainProposals : List SidechainProposalRow
  bundleProposals : List BundleProposalRow
deriving DecidableEq

/-- `queued_at IS NULL OR queued_at < height`. -/
def queuedBelow (queuedAt : Option ℕ) (height : ℕ) : Bool := queuedAt.all (fun n => n < height)

namespace BlockInfo

def sidechainProposals (info : BlockInfo) : List SidechainProposal :=
  info.events.filterMap (fun
    | .sidechainProposal _ proposal => some proposal
    | _ => none)

def withdrawalBundleEvents (info : BlockInfo) : List WithdrawalBundleEvent :=
  info.events.filterMap (fun
    | .withdrawalBundle event => some event
    | _ => none)

end BlockInfo

/-- Whether an event pays a bundle out. A submission settles nothing. -/
def WithdrawalBundleEventKind.paidOut : WithdrawalBundleEventKind → Option Bool
  | .failed => some false
  | .succeeded _ _ => some true
  | .submitted => none

namespace SidechainProposalRow

def clear (row : SidechainProposalRow) : SidechainProposalRow := { row with minedIn := none }

def disconnect (blockHash : BlockHash) (row : SidechainProposalRow) : SidechainProposalRow :=
  if row.minedIn = some blockHash then row.clear else row

def mark (blockHash : BlockHash) (height : ℕ) (id : SidechainProposalId) (row : SidechainProposalRow) :
    SidechainProposalRow :=
  if row.sidechainNumber = id.sidechainNumber ∧ row.dataHash = id.descriptionHash ∧
      queuedBelow row.queuedAt height then
    { row with minedIn := some blockHash }
  else row

end SidechainProposalRow

namespace BundleProposalRow

def clear (row : BundleProposalRow) : BundleProposalRow := { row with settledIn := none, paidOut := none }

def disconnect (blockHash : BlockHash) (row : BundleProposalRow) : BundleProposalRow :=
  if row.settledIn = some blockHash then row.clear else row

def mark (blockHash : BlockHash) (height : ℕ) (event : WithdrawalBundleEvent) (row : BundleProposalRow) :
    BundleProposalRow :=
  match event.kind.paidOut with
  | none => row
  | some paidOut =>
    if row.sidechainNumber = event.sidechainId ∧ row.bundleHash = event.m6id ∧
        queuedBelow row.queuedAt height then
      { row with settledIn := some blockHash, paidOut := some paidOut }
    else row

end BundleProposalRow

namespace PolicyDb

/-- `UPDATE` every row. -/
def update (db : PolicyDb) (f : SidechainProposalRow → SidechainProposalRow)
    (g : BundleProposalRow → BundleProposalRow) : PolicyDb :=
  { db with sidechainProposals := db.sidechainProposals.map f, bundleProposals := db.bundleProposals.map g }

def clear (db : PolicyDb) : PolicyDb := db.update .clear .clear

def disconnect (db : PolicyDb) (blockHash : BlockHash) : PolicyDb :=
  db.update (.disconnect blockHash) (.disconnect blockHash)

/-- Mark the rows that a block proposes or settles. -/
def connect [Bitcoin] (db : PolicyDb) (e : (BlockHash × BlockInfo) × ℕ) : PolicyDb :=
  let ((blockHash,info),height) := e
  let db := info.sidechainProposals.foldl
    (fun db proposal => db.update (.mark blockHash height proposal.computeId) id) db
  info.withdrawalBundleEvents.foldl
    (fun db event => db.update id (.mark blockHash height event)) db

/-- Bring the marks in line with the chain, and return the height of its tip. -/
def reconcile [Bitcoin] (db : PolicyDb) (params : NetworkParams) (dbs : Dbs) :
    Except ReconcileError (Option ℕ × PolicyDb) := do
  match ← dbs.chainDiff params db.policyTip with
  | none => return (none,db)
  | some diff =>
    if db.policyTip = some diff.tip then return (some diff.tipHeight,db)
    else
      let db := if diff.rebuilt then db.clear else db
      let db := diff.disconnected.foldl disconnect db
      let firstConnectedHeight := diff.tipHeight+1-diff.connected.length
      let db := (diff.connected.zipIdx firstConnectedHeight).foldl connect db
      return (some diff.tipHeight,{ db with policyTip := some diff.tip })

end PolicyDb

section Rows

variable {dbs : BlockHashDbs} {k : BlockHash} {info : BlockInfo}

def BlockHashDbs.eventsAt (dbs : BlockHashDbs) (k : BlockHash) : List BlockEvent :=
  (dbs.events.get? k).getD []

def BlockHashDbs.heightAt (dbs : BlockHashDbs) (k : BlockHash) : ℕ := (dbs.height.get? k).getD 0

namespace SidechainProposalRow

variable [Bitcoin] {row : SidechainProposalRow} {mark : Option (BlockHash × Unit)}

def proposedBy (row : SidechainProposalRow) : BlockEvent → Bool
  | .sidechainProposal _ proposal => proposal.computeId = ⟨row.sidechainNumber,row.dataHash⟩
  | _ => false

/-- Whether a block is above the height that a row was queued at and has its `M1`. -/
def hit (row : SidechainProposalRow) (dbs : BlockHashDbs) (k : BlockHash) : Option Unit :=
  if queuedBelow row.queuedAt (dbs.heightAt k) && (dbs.eventsAt k).any row.proposedBy then some ()
  else none

def withMark (row : SidechainProposalRow) (mark : Option (BlockHash × Unit)) : SidechainProposalRow :=
  { row with minedIn := mark.map Prod.fst }

omit [Bitcoin] in
theorem disconnect_withMark :
    (row.withMark mark).disconnect k = row.withMark (clearOne mark k) := by
  unfold disconnect clearOne
  cases mark with
  | none => simp [withMark]
  | some e =>
    by_cases he : e.1 = k
    · simp [withMark,clear,he]
    · simp [withMark,he]

theorem foldl_mark_withMark {height : ℕ} (l : List SidechainProposal) :
    l.foldl (fun r proposal => SidechainProposalRow.mark k height proposal.computeId r)
        (row.withMark mark) =
      row.withMark (if queuedBelow row.queuedAt height && l.any (fun proposal =>
        proposal.computeId = ⟨row.sidechainNumber,row.dataHash⟩) then some (k,()) else mark) := by
  induction l generalizing mark with
  | nil => simp
  | cons proposal l ih =>
    have hone : SidechainProposalRow.mark k height proposal.computeId (row.withMark mark) =
        row.withMark (if queuedBelow row.queuedAt height && decide (proposal.computeId =
          ⟨row.sidechainNumber,row.dataHash⟩) then some (k,()) else mark) := by
      unfold SidechainProposalRow.mark
      cases hq : queuedBelow row.queuedAt height with
      | false => simp [withMark,hq]
      | true =>
        by_cases hid : proposal.computeId = ⟨row.sidechainNumber,row.dataHash⟩
        · simp [withMark,hq,hid]
        · have hne : ¬ (row.sidechainNumber = proposal.computeId.sidechainNumber ∧
              row.dataHash = proposal.computeId.descriptionHash) := by
            rintro ⟨h₁,h₂⟩
            exact hid (by rw [h₁,h₂])
          simp [withMark,hq,hid,hne]
    rw [List.foldl_cons,hone,ih,List.any_cons]
    cases queuedBelow row.queuedAt height <;>
      by_cases hid : proposal.computeId = ⟨row.sidechainNumber,row.dataHash⟩ <;> simp [hid]

theorem connect_withMark (hi : info.events = dbs.eventsAt k) :
    info.sidechainProposals.foldl
        (fun r proposal => SidechainProposalRow.mark k (dbs.heightAt k) proposal.computeId r)
        (row.withMark mark) = row.withMark (markOne (row.hit dbs) mark k) := by
  have hany : info.sidechainProposals.any (fun proposal =>
      proposal.computeId = ⟨row.sidechainNumber,row.dataHash⟩) = (dbs.eventsAt k).any row.proposedBy := by
    rw [← hi,BlockInfo.sidechainProposals,List.any_filterMap]
    congr 1
    funext event
    cases event <;> rfl
  rw [foldl_mark_withMark,hany,markOne,hit]
  congr 1
  split <;> rfl

end SidechainProposalRow

namespace BundleProposalRow

variable {row : BundleProposalRow} {mark : Option (BlockHash × Bool)}

def settledBy (row : BundleProposalRow) (event : WithdrawalBundleEvent) : Option Bool :=
  if row.sidechainNumber = event.sidechainId ∧ row.bundleHash = event.m6id then event.kind.paidOut
  else none

/-- Whether a block is above the height that a row was queued at and settles its bundle,
with what its last event says. -/
def hit (row : BundleProposalRow) (dbs : BlockHashDbs) (k : BlockHash) : Option Bool :=
  if queuedBelow row.queuedAt (dbs.heightAt k) then
    ((dbs.eventsAt k).filterMap (fun
      | .withdrawalBundle event => row.settledBy event
      | _ => none)).getLast?
  else none

def withMark (row : BundleProposalRow) (mark : Option (BlockHash × Bool)) : BundleProposalRow :=
  { row with settledIn := mark.map Prod.fst, paidOut := mark.map Prod.snd }

theorem disconnect_withMark :
    (row.withMark mark).disconnect k = row.withMark (clearOne mark k) := by
  unfold disconnect clearOne
  cases mark with
  | none => simp [withMark]
  | some e =>
    by_cases he : e.1 = k
    · simp [withMark,clear,he]
    · simp [withMark,he]

theorem foldl_mark_withMark {height : ℕ} (l : List WithdrawalBundleEvent) :
    l.foldl (fun r event => BundleProposalRow.mark k height event r) (row.withMark mark) =
      row.withMark (if queuedBelow row.queuedAt height then
        (((l.filterMap row.settledBy).getLast?).map (fun x => (k,x))).or mark else mark) := by
  induction l generalizing mark with
  | nil => simp
  | cons event l ih =>
    have hone : BundleProposalRow.mark k height event (row.withMark mark) =
        row.withMark (if queuedBelow row.queuedAt height then
          ((row.settledBy event).map (fun x => (k,x))).or mark else mark) := by
      unfold BundleProposalRow.mark settledBy
      cases hk : event.kind.paidOut with
      | none => simp [withMark]
      | some paidOut =>
        by_cases hm : row.sidechainNumber = event.sidechainId ∧ row.bundleHash = event.m6id
        · cases hq : queuedBelow row.queuedAt height <;> simp [withMark,hm,hq]
        · have hm' : ¬ (row.sidechainNumber = event.sidechainId ∧ row.bundleHash = event.m6id ∧
              queuedBelow row.queuedAt height = true) := fun h => hm ⟨h.1,h.2.1⟩
          simp only [withMark,if_neg hm,Option.map_none,Option.none_or,ite_self]
          exact if_neg hm'
    rw [List.foldl_cons,hone,ih]
    congr 1
    cases hq : queuedBelow row.queuedAt height with
    | false => simp
    | true =>
      cases hs : row.settledBy event with
      | none => simp [hs]
      | some x =>
        simp only [if_true,List.filterMap_cons,hs,List.getLast?_cons,Option.map_some,Option.some_or]
        cases (l.filterMap row.settledBy).getLast? <;> rfl

theorem connect_withMark (hi : info.events = dbs.eventsAt k) :
    info.withdrawalBundleEvents.foldl (fun r event => BundleProposalRow.mark k (dbs.heightAt k) event r)
        (row.withMark mark) = row.withMark (markOne (row.hit dbs) mark k) := by
  have hfilter : info.withdrawalBundleEvents.filterMap row.settledBy =
      (dbs.eventsAt k).filterMap (fun
        | .withdrawalBundle event => row.settledBy event
        | _ => none) := by
    rw [← hi,BlockInfo.withdrawalBundleEvents,List.filterMap_filterMap]
    congr 1
    funext event
    cases event <;> rfl
  rw [foldl_mark_withMark,hfilter,markOne,hit]
  congr 1
  split
  · cases ((dbs.eventsAt k).filterMap _).getLast? <;> rfl
  · rfl

end BundleProposalRow

namespace PolicyDb

variable {db : PolicyDb} {m : SidechainProposalRow → Option (BlockHash × Unit)}
  {n : BundleProposalRow → Option (BlockHash × Bool)} {l : List BlockHash}

def marked (db : PolicyDb) (m : SidechainProposalRow → Option (BlockHash × Unit))
    (n : BundleProposalRow → Option (BlockHash × Bool)) : PolicyDb :=
  db.update (fun r => r.withMark (m r)) (fun r => r.withMark (n r))

theorem foldl_update {α : Type} (f : α → SidechainProposalRow → SidechainProposalRow)
    (g : α → BundleProposalRow → BundleProposalRow) (l : List α) (db : PolicyDb) :
    l.foldl (fun db x => db.update (f x) (g x)) db =
      db.update (fun r => l.foldl (fun r x => f x r) r) (fun r => l.foldl (fun r x => g x r) r) := by
  induction l generalizing db with
  | nil => simp [update]
  | cons x l ih =>
    rw [List.foldl_cons,ih]
    simp [update,Function.comp_def]

theorem foldl_id {α β : Type} (l : List α) (r : β) : l.foldl (fun r _ => id r) r = r := by
  induction l with
  | nil => rfl
  | cons x l ih => exact ih

theorem marked_clear : db.clear = db.marked (fun _ => none) (fun _ => none) := rfl

theorem marked_disconnect : (db.marked m n).disconnect k =
    db.marked (fun r => clearOne (m r) k) (fun r => clearOne (n r) k) := by
  simp only [disconnect,marked,update,List.map_map,Function.comp_def,
    SidechainProposalRow.disconnect_withMark,BundleProposalRow.disconnect_withMark]

theorem marked_foldl_disconnect : l.foldl disconnect (db.marked m n) =
    db.marked (fun r => l.foldl clearOne (m r)) (fun r => l.foldl clearOne (n r)) := by
  induction l generalizing m n with
  | nil => rfl
  | cons k l ih => rw [List.foldl_cons,marked_disconnect,ih]; rfl

theorem map_eq_self {α : Type} {f : α → α} {l : List α} : l.map f = l ↔ ∀ x ∈ l, f x = x := by
  induction l with
  | nil => simp
  | cons x l ih => simp [ih]

variable [Bitcoin]

theorem marked_connect {e : (BlockHash × BlockInfo) × ℕ} (he : e.1.2.events = dbs.eventsAt e.1.1)
    (hn : e.2 = dbs.heightAt e.1.1) : (db.marked m n).connect e =
      db.marked (fun r => markOne (r.hit dbs) (m r) e.1.1) (fun r => markOne (r.hit dbs) (n r) e.1.1) := by
  obtain ⟨⟨k,info⟩,height⟩ := e
  obtain rfl : height = dbs.heightAt k := hn
  have hproposals := foldl_update (fun proposal : SidechainProposal =>
    SidechainProposalRow.mark k (dbs.heightAt k) proposal.computeId) (fun _ => id)
    info.sidechainProposals (db.marked m n)
  have hbundles := fun db' => foldl_update (fun _ => id)
    (fun event => BundleProposalRow.mark k (dbs.heightAt k) event) info.withdrawalBundleEvents db'
  have hconnect : (db.marked m n).connect ((k,info),dbs.heightAt k) =
      info.withdrawalBundleEvents.foldl
        (fun db event => db.update id (BundleProposalRow.mark k (dbs.heightAt k) event))
        (info.sidechainProposals.foldl (fun db proposal =>
          db.update (SidechainProposalRow.mark k (dbs.heightAt k) proposal.computeId) id)
          (db.marked m n)) := rfl
  rw [hconnect,hproposals,hbundles]
  simp only [marked,update,List.map_map,Function.comp_def,foldl_id,
    SidechainProposalRow.connect_withMark he,BundleProposalRow.connect_withMark he]

theorem marked_foldl_connect {es : List ((BlockHash × BlockInfo) × ℕ)}
    (hes : ∀ e ∈ es, e.1.2.events = dbs.eventsAt e.1.1 ∧ e.2 = dbs.heightAt e.1.1) :
    es.foldl connect (db.marked m n) =
      db.marked (fun r => (es.map (fun e => e.1.1)).foldl (markOne (r.hit dbs)) (m r))
        (fun r => (es.map (fun e => e.1.1)).foldl (markOne (r.hit dbs)) (n r)) := by
  induction es generalizing m n with
  | nil => rfl
  | cons e es ih =>
    obtain ⟨he,hn⟩ := hes e List.mem_cons_self
    rw [List.foldl_cons,marked_connect he hn,ih (fun e' he' => hes e' (List.mem_cons_of_mem _ he'))]
    rfl

/-- The marks are those of a list of blocks, the newest first: every row names the newest
block that has its `M1` or settles its bundle. -/
def InLine (db : PolicyDb) (dbs : BlockHashDbs) (l : List BlockHash) : Prop :=
  (∀ row ∈ db.sidechainProposals, row.minedIn = (newest (row.hit dbs) l).map Prod.fst) ∧
  ∀ row ∈ db.bundleProposals, row.settledIn = (newest (row.hit dbs) l).map Prod.fst ∧
    row.paidOut = (newest (row.hit dbs) l).map Prod.snd

theorem inLine_iff : db.InLine dbs l ↔
    db.marked (fun r => newest (r.hit dbs) l) (fun r => newest (r.hit dbs) l) = db := by
  obtain ⟨tip,proposals,bundles⟩ := db
  simp only [InLine,marked,update,PolicyDb.mk.injEq,true_and,map_eq_self]
  refine and_congr (forall₂_congr fun row _ => ?_) (forall₂_congr fun row _ => ?_)
  · obtain ⟨a,b,c,d⟩ := row
    simp only [SidechainProposalRow.withMark,SidechainProposalRow.mk.injEq,true_and]
    exact eq_comm
  · obtain ⟨a,b,c,d,e⟩ := row
    simp only [BundleProposalRow.withMark,BundleProposalRow.mk.injEq,true_and]
    rw [eq_comm (a := d),eq_comm (a := e)]

theorem inLine_marked : (db.marked m n).InLine dbs l ↔
    (∀ row ∈ db.sidechainProposals, m row = newest (row.hit dbs) l) ∧
      ∀ row ∈ db.bundleProposals, n row = newest (row.hit dbs) l := by
  have hunit : ∀ a b : Option (BlockHash × Unit), a.map Prod.fst = b.map Prod.fst ↔ a = b := by
    intro a b
    rw [(Option.map_injective (fun x y hxy => Prod.ext hxy rfl)).eq_iff]
  have hpair : ∀ a b : Option (BlockHash × Bool),
      a.map Prod.fst = b.map Prod.fst ∧ a.map Prod.snd = b.map Prod.snd ↔ a = b := by
    intro a b
    cases a <;> cases b <;> simp [Prod.ext_iff]
  unfold InLine marked update
  simp only [List.forall_mem_map]
  refine and_congr (forall₂_congr fun row _ => ?_) (forall₂_congr fun row _ => ?_)
  · exact hunit _ _
  · exact hpair _ _

end PolicyDb

end Rows

end Bip300301Enforcer
