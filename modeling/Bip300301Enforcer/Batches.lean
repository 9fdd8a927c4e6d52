import Bip300301Enforcer.Conservation
import Bip300301Enforcer.VoteSafety

/-! Connecting blocks in batches, and that it makes no difference how a list of blocks
is cut into batches. -/
namespace Bip300301Enforcer
open Lib Chain BlockHandler
open Fallible (FailsOnly)

/-- The block at which a sync stops. -/
structure InvalidBlock where
  blockHash : BlockHash
  reason : Error
deriving DecidableEq

/-- What is left when blocks have been processed and committed: whether one of them
was rejected, the database, and the events that were broadcast. -/
structure Processed where
  result : Except Error (Option InvalidBlock)
  dbs : Dbs
  events : List Event

namespace Processed

/-- Go on from what has been committed, unless a block was rejected. -/
def andThen (p : Processed) (f : Dbs → Processed) : Processed :=
  match p.result with
  | .ok none => ⟨(f p.dbs).result,(f p.dbs).dbs,p.events++(f p.dbs).events⟩
  | _ => p

theorem andThen_none {p : Processed} (hp : p.result = .ok none) (f : Dbs → Processed) :
    p.andThen f = ⟨(f p.dbs).result,(f p.dbs).dbs,p.events++(f p.dbs).events⟩ := by
  simp only [andThen,hp]

theorem andThen_stop {p : Processed} (hp : p.result ≠ .ok none) (f : Dbs → Processed) :
    p.andThen f = p := by
  unfold andThen
  split
  · rename_i he
    exact absurd he hp
  · rfl

theorem andThen_assoc (p : Processed) (f g : Dbs → Processed) :
    (p.andThen f).andThen g = p.andThen (fun dbs => (f dbs).andThen g) := by
  by_cases hp : p.result = .ok none
  · rw [andThen_none hp,andThen_none hp]
    by_cases hf : (f p.dbs).result = .ok none
    · rw [andThen_none hf,andThen_none (by exact hf)]
      simp only [List.append_assoc]
    · rw [andThen_stop hf,andThen_stop (by exact hf)]
  · rw [andThen_stop hp,andThen_stop hp,andThen_stop hp]

end Processed

namespace BlockHandler

variable [Bitcoin] (h : BlockHandler)

/-- Connect the blocks of a batch within one transaction. Each block has a nested
transaction, which is aborted when the block is rejected. -/
def handleBlockBatch (dbs : Dbs) : List Block → Res (Option InvalidBlock × List Event × Dbs)
  | [] => .ok (none,[],dbs)
  | block::blocks =>
    match h.connectBlock dbs block with
    | .ok (event,dbs) => do
      let (invalidBlock,events,dbs) ← handleBlockBatch dbs blocks
      return (invalidBlock,event::events,dbs)
    | .error err =>
      match err.fatality with
      | .jfyi => .ok (some ⟨block.blockHash,err⟩,[],dbs)
      | .fatal | .panic => .error err

/-- Connect a batch and commit it, then broadcast its events. A fatal error commits
and broadcasts nothing. -/
def handleBlockBatchAndCommit (dbs : Dbs) (blocks : List Block) : Processed :=
  match h.handleBlockBatch dbs blocks with
  | .ok (invalidBlock,events,dbs) => ⟨.ok invalidBlock,dbs,events⟩
  | .error err => ⟨.error err,dbs,[]⟩

def handleBatches (dbs : Dbs) : List (List Block) → Processed
  | [] => ⟨.ok none,dbs,[]⟩
  | batch::batches =>
    (h.handleBlockBatchAndCommit dbs batch).andThen (fun dbs => handleBatches dbs batches)

def connectAndCommit (dbs : Dbs) (block : Block) : Processed :=
  match h.connectBlock dbs block with
  | .ok (event,dbs) => ⟨.ok none,dbs,[event]⟩
  | .error err =>
    match err.fatality with
    | .jfyi => ⟨.ok (some ⟨block.blockHash,err⟩),dbs,[]⟩
    | .fatal | .panic => ⟨.error err,dbs,[]⟩

def connectEach (dbs : Dbs) : List Block → Processed
  | [] => ⟨.ok none,dbs,[]⟩
  | block::blocks => (h.connectAndCommit dbs block).andThen (fun dbs => connectEach dbs blocks)

end BlockHandler

section Batches

variable [Bitcoin] {h : BlockHandler} {c : Chain} {dbs : Dbs} {blocks blocks' : List Block}

/-- Blocks that follow a chain under Bitcoin's rules and whose headers are stored. -/
def Follow (dbs : BlockHashDbs) : Chain → List Block → Prop
  | _, [] => True
  | c, b::bs => UtxoValid c b ∧ dbs.header.get? b.blockHash = some b.header ∧ Follow dbs (b::c) bs

instance decidableFollow (dbs : BlockHashDbs) : (c : Chain) → (bs : List Block) →
    Decidable (Follow dbs c bs)
  | _, [] => .isTrue trivial
  | c, b::bs =>
    have := decidableFollow dbs (b::c) bs
    inferInstanceAs (Decidable (UtxoValid c b ∧ dbs.header.get? b.blockHash = some b.header ∧
      Follow dbs (b::c) bs))

theorem follow_mono {dbs dbs' : BlockHashDbs} (hh : dbs'.header = dbs.header) {c : Chain}
    {bs : List Block} (hf : Follow dbs c bs) : Follow dbs' c bs := by
  induction bs generalizing c with
  | nil => trivial
  | cons b bs ih => exact ⟨hf.1,by rw [hh]; exact hf.2.1,ih hf.2.2⟩

theorem connectBlock_header {b : Block} {event : Event} {dbs' : Dbs}
    (hc : h.connectBlock dbs b = .ok (event,dbs')) :
    dbs'.blockHashes.header = dbs.blockHashes.header := by
  obtain ⟨n,coinbase,txs,res,-,-,hr⟩ := connectBlock_ok.mp hc
  obtain ⟨hd,w,-,-,-,tip,rfl,-⟩ := recordBlock_ok hr
  rfl

structure Stops (h : BlockHandler) (dbs : Dbs) (c : Chain) (blocks : List Block) (p : Processed)
    (accepted rest : List Block) : Prop where
  split : blocks = accepted++rest
  reach : Reach h UtxoValid False p.dbs (accepted.reverse++c)
  header : p.dbs.blockHashes.header = dbs.blockHashes.header
  prefixOnly : h.connectEach dbs accepted = ⟨.ok none,p.dbs,p.events⟩
  result : (rest = [] ∧ p.result = .ok none) ∨ ∃ b bs e, rest = b::bs ∧
    h.connectBlock p.dbs b = .error e ∧ e.Rejects ∧ p.result = .ok (some ⟨b.blockHash,e⟩)

theorem connectAndCommit_ok {b : Block} {event : Event} {dbs' : Dbs}
    (hc : h.connectBlock dbs b = .ok (event,dbs')) :
    h.connectAndCommit dbs b = ⟨.ok none,dbs',[event]⟩ := by
  simp only [connectAndCommit,hc]

theorem connectAndCommit_rejected {b : Block} {e : Error} (hc : h.connectBlock dbs b = .error e)
    (he : e.Rejects) : h.connectAndCommit dbs b = ⟨.ok (some ⟨b.blockHash,e⟩),dbs,[]⟩ := by
  have hj : e.fatality = .jfyi := he
  simp only [connectAndCommit,hc,hj]

/-- Blocks are connected one after another up to the first one that is rejected, for a
reason that lies in it. -/
theorem connectEach_stops (hage : h.thresholds.proposalMaxAge+1 < 0xFFFF)
    (hr : Reach h UtxoValid False dbs c) (hf : Follow dbs.blockHashes c blocks) :
    ∃ accepted rest, Stops h dbs c blocks (h.connectEach dbs blocks) accepted rest := by
  induction blocks generalizing dbs c with
  | nil => exact ⟨[],[],rfl,hr,rfl,rfl,.inl ⟨rfl,rfl⟩⟩
  | cons b bs ih =>
    obtain ⟨hv,hh,hf⟩ := hf
    cases hc : h.connectBlock dbs b with
    | ok r =>
      obtain ⟨event,dbs'⟩ := r
      have hheader := connectBlock_header hc
      obtain ⟨accepted,rest,hst⟩ := ih (hr.connect hv hh hc) (follow_mono hheader hf)
      have heach : ∀ l, h.connectEach dbs (b::l) = ⟨(h.connectEach dbs' l).result,
          (h.connectEach dbs' l).dbs,event::(h.connectEach dbs' l).events⟩ := by
        intro l
        rw [connectEach,connectAndCommit_ok hc,Processed.andThen_none rfl]
        rfl
      rw [heach]
      refine ⟨b::accepted,rest,by rw [hst.split,List.cons_append],?_,hst.header.trans hheader,?_,
        hst.result⟩
      · have hreach := hst.reach
        rw [List.reverse_cons,List.append_assoc]
        exact hreach
      · rw [heach,hst.prefixOnly]
    | error e =>
      have hs := hr.synced
      have hrej : e.Rejects := by
        rcases hs.connectBlock_failsOnly (A := True) hage
          (fun _ => ⟨hv,hs.grown.backed hs.valid⟩) hh e hc with hrej | ⟨hn,-⟩
        · exact hrej
        · exact absurd trivial hn
      rw [connectEach,connectAndCommit_rejected hc hrej,Processed.andThen_stop (by simp)]
      exact ⟨[],b::bs,rfl,hr,rfl,rfl,.inr ⟨b,bs,e,rfl,hc,hrej,rfl⟩⟩

/-- A batch is the same as its blocks one by one, if no block fails fatally. -/
theorem handleBlockBatch_eq {r : Option InvalidBlock}
    (hp : (h.connectEach dbs blocks).result = .ok r) :
    h.handleBlockBatch dbs blocks =
      .ok (r,(h.connectEach dbs blocks).events,(h.connectEach dbs blocks).dbs) := by
  induction blocks generalizing dbs with
  | nil =>
    obtain rfl := Except.ok.inj hp
    rfl
  | cons b bs ih =>
    unfold connectEach connectAndCommit at hp ⊢
    unfold handleBlockBatch
    cases hc : h.connectBlock dbs b with
    | ok e =>
      simp only [hc,Processed.andThen] at hp ⊢
      rw [ih hp]
      rfl
    | error e =>
      simp only [hc] at hp ⊢
      cases hj : e.fatality with
      | jfyi =>
        simp only [hj,Processed.andThen] at hp ⊢
        obtain rfl := Except.ok.inj hp
        rfl
      | fatal | panic =>
        simp only [hj,Processed.andThen] at hp
        cases hp

theorem handleBlockBatchAndCommit_eq {r : Option InvalidBlock}
    (hp : (h.connectEach dbs blocks).result = .ok r) :
    h.handleBlockBatchAndCommit dbs blocks = h.connectEach dbs blocks := by
  simp only [handleBlockBatchAndCommit,handleBlockBatch_eq hp,← hp]

theorem connectEach_append :
    h.connectEach dbs (blocks++blocks') =
      (h.connectEach dbs blocks).andThen (fun dbs => h.connectEach dbs blocks') := by
  induction blocks generalizing dbs with
  | nil =>
    rw [connectEach,Processed.andThen_none rfl]
    rfl
  | cons b bs ih =>
    simp only [List.cons_append,connectEach,Processed.andThen_assoc,ih]

theorem Stops.result_ok {p : Processed} {accepted rest : List Block}
    (hst : Stops h dbs c blocks p accepted rest) : ∃ r, p.result = .ok r := by
  rcases hst.result with ⟨-,hr⟩ | ⟨b,bs,e,-,-,-,hr⟩
  · exact ⟨_,hr⟩
  · exact ⟨_,hr⟩

theorem handleBatches_eq {batches : List (List Block)} {r : Option InvalidBlock}
    (hp : (h.connectEach dbs batches.flatten).result = .ok r) :
    h.handleBatches dbs batches = h.connectEach dbs batches.flatten := by
  induction batches generalizing dbs with
  | nil => rfl
  | cons batch batches ih =>
    rw [List.flatten_cons,connectEach_append] at hp ⊢
    rw [handleBatches]
    cases hres : (h.connectEach dbs batch).result with
    | error e =>
      rw [Processed.andThen_stop (by rw [hres]; simp),hres] at hp
      cases hp
    | ok r₁ =>
      rw [handleBlockBatchAndCommit_eq hres]
      cases r₁ with
      | some i =>
        have hstop : (h.connectEach dbs batch).result ≠ .ok none := by rw [hres]; simp
        rw [Processed.andThen_stop hstop,Processed.andThen_stop hstop]
      | none =>
        rw [Processed.andThen_none hres] at hp ⊢
        rw [Processed.andThen_none hres,ih hp]

/-- In every guarded run it makes no difference how a list of blocks is cut into
batches: the state, the events and the rejected block are those of connecting the blocks
one by one, and the state is that of the accepted blocks alone. -/
theorem handleBatches_eq_connectEach (params : NetworkParams) (fork : Fork) (network : Network)
    (hp : params.thresholds = .forNetwork fork network)
    (hr : Reach (.new params) UtxoValid False dbs c) (batches : List (List Block))
    (hf : Follow dbs.blockHashes c batches.flatten) :
    (BlockHandler.new params).handleBatches dbs batches =
      (BlockHandler.new params).connectEach dbs batches.flatten ∧
    ∃ accepted rest, Stops (.new params) dbs c batches.flatten
      ((BlockHandler.new params).handleBatches dbs batches) accepted rest := by
  have hage : (BlockHandler.new params).thresholds.proposalMaxAge+1 < 0xFFFF := by
    have hmax := (Thresholds.forNetwork_maxAge fork network).1
    rw [← hp] at hmax
    exact hmax
  obtain ⟨accepted,rest,hst⟩ := connectEach_stops hage hr hf
  obtain ⟨r,hres⟩ := hst.result_ok
  rw [handleBatches_eq hres]
  exact ⟨rfl,accepted,rest,hst⟩

end Batches

section Sample

open Sample

namespace BatchSample

def handler : BlockHandler := .new (.new .bitcoin .regtest)

def blocks : List Block :=
  blocksOn allZeros 0 [([],[]),([m1Script 0 [1,2,3]],[]),([m3Script 5 7],[]),([],[])]

def run : Dbs × Chain :=
  Call.runAll handler UtxoValid (blocks.zipIdx.map (fun e => .header e.1.header e.2))

theorem reach_run : Reach handler UtxoValid False run.1 run.2 :=
  Call.reach_runAll _ (by decide)

def batches : List (List Block) := [blocks.take 1,(blocks.drop 1).take 2,blocks.drop 3]

end BatchSample

open BatchSample

theorem handleBatches_eq_connectEach_sample :
    handler.handleBatches run.1 batches = handler.connectEach run.1 batches.flatten ∧
      (handler.handleBatches run.1 batches).events.length = 2 ∧
      (handler.handleBatches run.1 batches).result.toOption =
        (blocks.drop 2).head?.map (fun b => some ⟨b.blockHash,.inactiveSidechain 5⟩) :=
  ⟨(handleBatches_eq_connectEach handler.params .bitcoin .regtest rfl reach_run batches
    (by decide +kernel)).1,by decide +kernel,by decide +kernel⟩

end Sample

end Bip300301Enforcer
