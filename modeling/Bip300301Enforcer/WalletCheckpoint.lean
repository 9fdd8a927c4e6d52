import Bip300301Enforcer.ReorgStep

/-! The checkpoint that the scans of the wallet start from: the wallet's own one, extended by
headers of the validator's active chain. -/
namespace Bip300301Enforcer
open Lib Chain

section ListHeaders

variable [Bitcoin]

/-- Walk down the ancestors as far as the first height. -/
def listHeadersLoop (dbs : BlockHashDbs) (startHeight : ℕ) :
    List BlockHash → Res (List (ℕ × BlockHash))
  | [] => .ok []
  | blockHash::ancestors => do
    let height ← Database.get dbs.height .height blockHash
    if height < startHeight then pure []
    else do
      let res ← listHeadersLoop dbs startHeight ancestors
      pure ((height,blockHash)::res)

def listHeaders (dbs : Dbs) (startHeight : ℕ) : Res (List (ℕ × BlockHash)) :=
  match dbs.currentChainTip with
  -- Not synced yet, so there is no active chain to list.
  | none => .ok []
  | some tip => do
    let res ← listHeadersLoop dbs.blockHashes startHeight (dbs.blockHashes.ancestorHeaders tip)
    pure res.reverse

def Chain.hashAt (c : Chain) (n : ℕ) : Option BlockHash := c.reverse[n]?.map Block.blockHash

variable {h : BlockHandler} {V : Chain → Block → Prop} {stale : Prop} {dbs : Dbs} {c : Chain}
  {b : Block} {n startHeight : ℕ} {hash : BlockHash}

theorem Chain.hashAt_cons :
    Chain.hashAt (b::c) n = if n = c.length then some b.blockHash else Chain.hashAt c n := by
  unfold hashAt
  rw [List.reverse_cons]
  split
  · rename_i hn
    subst hn
    rw [← List.length_reverse,List.getElem?_concat_length]
    rfl
  · rename_i hn
    rcases Nat.lt_or_ge n c.reverse.length with hlt | hge
    · rw [List.getElem?_append_left hlt]
    · rw [List.length_reverse] at hge
      rw [List.getElem?_eq_none (by simp; omega),List.getElem?_eq_none (by simpa)]

theorem Chain.hashAt_lt (hn : Chain.hashAt c n = some hash) : n < c.length := by
  obtain ⟨b,hb,-⟩ := Option.map_eq_some_iff.mp hn
  simpa using (List.getElem?_eq_some_iff.mp hb).1

def Lists (c : Chain) (startHeight : ℕ) (l : List (ℕ × BlockHash)) : Prop :=
  ∀ e, e ∈ l ↔ startHeight ≤ e.1 ∧ Chain.hashAt c e.1 = some e.2

theorem lists_nil (hc : c.length ≤ startHeight) : Lists c startHeight [] := by
  intro e
  refine ⟨fun he => absurd he List.not_mem_nil,fun ⟨hle,hat⟩ => ?_⟩
  have hlt := Chain.hashAt_lt hat
  omega

/-- Walking down from a block lists each height of its chain once. -/
theorem listHeadersLoop_ok (hh : dbs.blockHashes.Headers) (hl : dbs.blockHashes.Linked c)
    (startHeight : ℕ) :
    ∃ l, listHeadersLoop dbs.blockHashes startHeight (c.map Block.blockHash) = .ok l ∧
      l.Pairwise (fun e e' => e'.1 < e.1) ∧ Lists c startHeight l := by
  induction c with
  | nil => exact ⟨[],rfl,.nil,lists_nil (Nat.zero_le _)⟩
  | cons b c ih =>
    have hheight : Database.get dbs.blockHashes.height .height b.blockHash = .ok c.length :=
      (Database.get_ok ..).mpr (BlockHashDbs.linked_height hh hl)
    simp only [List.map_cons,listHeadersLoop,hheight,Fallible.ok_bind]
    split
    · exact ⟨[],rfl,.nil,lists_nil (by simpa)⟩
    · rename_i hlt
      obtain ⟨l,hloop,hpair,hlists⟩ := ih hl.2.2
      refine ⟨(c.length,b.blockHash)::l,by rw [hloop]; rfl,?_,?_⟩
      · refine List.pairwise_cons.mpr ⟨fun e he => ?_,hpair⟩
        exact Chain.hashAt_lt ((hlists e).mp he).2
      · intro e
        rw [List.mem_cons,hlists e,Chain.hashAt_cons,Prod.ext_iff]
        by_cases he : e.1 = c.length
        · have hnone : ¬ Chain.hashAt c c.length = some e.2 :=
            fun hat => absurd (Chain.hashAt_lt hat) (Nat.lt_irrefl _)
          rw [he,if_pos rfl,Option.some.injEq]
          simp only [hnone,true_and,and_false,or_false]
          exact ⟨fun heq => ⟨Nat.le_of_not_lt hlt,heq.symm⟩,fun heq => heq.2.symm⟩
        · simp [he]

theorem listHeaders_ok (hr : Reach h V stale dbs c) (startHeight : ℕ) :
    ∃ l, listHeaders dbs startHeight = .ok l ∧ l.Pairwise (fun e e' => e.1 < e'.1) ∧
      Lists c startHeight l := by
  have hs := hr.synced
  unfold listHeaders
  cases c with
  | nil =>
    rw [show dbs.currentChainTip = none from hs.tip]
    exact ⟨[],rfl,.nil,lists_nil (Nat.zero_le _)⟩
  | cons b c =>
    have hpath := BlockHashDbs.linked_path hs.linked
    obtain ⟨l,hloop,hpair,hlists⟩ := listHeadersLoop_ok hs.headers hs.linked startHeight
    rw [show dbs.currentChainTip = some b.blockHash from hs.tip]
    rw [parentHash_cons] at hpath
    simp only [hs.headers.ancestorHeaders_eq hpath,hloop,Fallible.ok_bind]
    refine ⟨l.reverse,rfl,List.pairwise_reverse.mpr hpair,fun e => ?_⟩
    rw [List.mem_reverse,hlists e]

end ListHeaders

/-- A block of a chain, at its height. -/
@[ext]
structure BlockId where
  height : ℕ
  hash : BlockHash
deriving DecidableEq, Repr

/-- The blocks of a checkpoint, the highest first. -/
abbrev CheckPoint := List BlockId

namespace CheckPoint

/-- The heights strictly increase from the lowest block to the tip. -/
def Ascends (checkpoint : CheckPoint) : Prop :=
  checkpoint.Pairwise (fun above below => below.height < above.height)

instance (checkpoint : CheckPoint) : Decidable checkpoint.Ascends :=
  inferInstanceAs (Decidable (List.Pairwise _ _))

end CheckPoint

/-- The wallet's local chain. It may leave out heights. -/
structure LocalChain where
  tip : BlockId
  below : List BlockId
  ascends : CheckPoint.Ascends (tip::below)

def LocalChain.checkpoint (localChain : LocalChain) : CheckPoint := localChain.tip::localChain.below

inductive FullScan
  | listHeaders (err : Error)
  | createCheckPointFromHeaders (lastSuccessfulHeader : Option CheckPoint)
deriving DecidableEq

/-- Extending a checkpoint puts blocks of ascending heights on top of it, and keeps its own. -/
def Extends (extend : CheckPoint → List BlockId → Except CheckPoint CheckPoint) : Prop :=
  ∀ checkpoint blockIds, CheckPoint.Ascends (blockIds.reverse++checkpoint) →
    extend checkpoint blockIds = .ok (blockIds.reverse++checkpoint)

namespace Wallet

def blockIds (tipHeight : ℕ) (upToHeight : Option ℕ) (headers : List (ℕ × BlockHash)) :
    List BlockId :=
  let headers : List (ℕ × BlockHash) := match upToHeight with
    | some upToHeight => headers.filter (fun e => e.1 ≤ upToHeight)
    | none => headers
  -- Anything at or below the tip is already covered by the checkpoint being extended.
  (headers.filter (fun e => tipHeight < e.1)).map (fun e => ⟨e.1,e.2⟩)

section GetChainCheckpoint

variable [Bitcoin] (extend : CheckPoint → List BlockId → Except CheckPoint CheckPoint)

/-- The wallet's checkpoint with the active chain's blocks on top of it. -/
def getChainCheckpoint (dbs : Dbs) (localChain : LocalChain) (upToHeight : Option ℕ) :
    Except FullScan CheckPoint := do
  let headers ← (listHeaders dbs localChain.tip.height).mapError .listHeaders
  (extend localChain.checkpoint (blockIds localChain.tip.height upToHeight headers)).mapError
    (fun lastSuccessfulHeader => .createCheckPointFromHeaders (some lastSuccessfulHeader))

variable {extend} {h : BlockHandler} {V : Chain → Block → Prop} {stale : Prop} {dbs : Dbs}
  {c : Chain}

theorem mem_blockIds (localChain : LocalChain) (upToHeight : Option ℕ) {startHeight : ℕ}
    {headers : List (ℕ × BlockHash)}
    (hl : Lists c startHeight headers) (hle : startHeight ≤ localChain.tip.height) (id : BlockId) :
    id ∈ blockIds localChain.tip.height upToHeight headers ↔ localChain.tip.height < id.height ∧
      (∀ m ∈ upToHeight, id.height ≤ m) ∧ Chain.hashAt c id.height = some id.hash := by
  have hmem : id ∈ blockIds localChain.tip.height upToHeight headers ↔
      localChain.tip.height < id.height ∧ (∀ m ∈ upToHeight, id.height ≤ m) ∧
        (id.height,id.hash) ∈ headers := by
    cases upToHeight with
    | none => simp [blockIds,BlockId.ext_iff,and_comm]
    | some m => simp [blockIds,BlockId.ext_iff,and_comm,and_left_comm,and_assoc]
  rw [hmem,hl]
  constructor
  · rintro ⟨hlt,hup,-,hat⟩
    exact ⟨hlt,hup,hat⟩
  · rintro ⟨hlt,hup,hat⟩
    exact ⟨hlt,hup,by omega,hat⟩

omit [Bitcoin] in
theorem blockIds_ascends (upToHeight : Option ℕ) {tipHeight : ℕ} {headers : List (ℕ × BlockHash)}
    (hpair : headers.Pairwise (fun e e' => e.1 < e'.1)) :
    CheckPoint.Ascends (blockIds tipHeight upToHeight headers).reverse := by
  unfold CheckPoint.Ascends blockIds
  rw [List.pairwise_reverse,List.pairwise_map]
  refine List.Pairwise.filter _ ?_
  cases upToHeight with
  | none => exact hpair
  | some m => exact hpair.filter _

theorem getChainCheckpoint_eq (hext : Extends extend) (hr : Reach h V stale dbs c)
    (localChain : LocalChain) (upToHeight : Option ℕ) :
    ∃ ids : List BlockId, getChainCheckpoint extend dbs localChain upToHeight =
        .ok (ids.reverse++localChain.checkpoint) ∧
      CheckPoint.Ascends (ids.reverse++localChain.checkpoint) ∧
      ∀ id, id ∈ ids ↔ localChain.tip.height < id.height ∧ (∀ m ∈ upToHeight, id.height ≤ m) ∧
        Chain.hashAt c id.height = some id.hash := by
  obtain ⟨headers,hlist,hpair,hlists⟩ := listHeaders_ok hr localChain.tip.height
  have hmem := mem_blockIds localChain upToHeight hlists le_rfl
  have hascends : CheckPoint.Ascends ((blockIds localChain.tip.height upToHeight headers).reverse++
      localChain.checkpoint) := by
    refine List.pairwise_append.mpr ⟨blockIds_ascends upToHeight hpair,localChain.ascends,?_⟩
    intro id hid id' hid'
    have habove := ((hmem id).mp (List.mem_reverse.mp hid)).1
    have hle : id'.height ≤ localChain.tip.height := by
      rcases List.mem_cons.mp hid' with rfl | hbelow
      · exact le_rfl
      · exact (List.rel_of_pairwise_cons localChain.ascends hbelow).le
    omega
  refine ⟨_,?_,hascends,hmem⟩
  simp only [getChainCheckpoint,hlist,Except.mapError,Fallible.ok_bind,hext _ _ hascends]

end GetChainCheckpoint

structure Branch (tip : BlockId) where
  hashes : List BlockHash
  length_eq : hashes.length = tip.height+1
  head_eq : hashes.head? = some tip.hash

namespace Branch

variable {tip : BlockId}

def hashAt (branch : Branch tip) (n : ℕ) : Option BlockHash := branch.hashes.reverse[n]?

theorem hashAt_tip (branch : Branch tip) : branch.hashAt tip.height = some tip.hash := by
  rw [← branch.head_eq,← List.getLast?_reverse,List.getLast?_eq_getElem?,List.length_reverse,
    branch.length_eq]
  rfl

theorem hashAt_le (branch : Branch tip) {n : ℕ} {hash : BlockHash}
    (hn : branch.hashAt n = some hash) : n ≤ tip.height := by
  have hlt := (List.getElem?_eq_some_iff.mp hn).1
  rw [List.length_reverse,branch.length_eq] at hlt
  omega

def AtOrAboveFork [Bitcoin] (branch : Branch tip) (c : Chain) (n : ℕ) : Prop :=
  ∀ m hash, branch.hashAt m = some hash → Chain.hashAt c m = some hash → m ≤ n

end Branch

section Active

variable [Bitcoin] {h : BlockHandler} {V : Chain → Block → Prop} {stale : Prop} {dbs : Dbs}
  {c : Chain} {extend : CheckPoint → List BlockId → Except CheckPoint CheckPoint}

/-- The checkpoint that is returned ascends, and follows the active chain from the fork point of the
wallet's tip on, exactly if the wallet's tip is on the active chain. -/
theorem getChainCheckpoint_active_iff (hext : Extends extend) (hr : Reach h V stale dbs c)
    (localChain : LocalChain) (upToHeight : Option ℕ) (branch : Branch localChain.tip) :
    (∃ checkpoint, getChainCheckpoint extend dbs localChain upToHeight = .ok checkpoint ∧
        checkpoint.Ascends ∧ ∀ id ∈ checkpoint, branch.AtOrAboveFork c id.height →
          Chain.hashAt c id.height = some id.hash) ↔
      Chain.hashAt c localChain.tip.height = some localChain.tip.hash := by
  obtain ⟨ids,heq,hascends,hids⟩ :=
    getChainCheckpoint_eq hext hr localChain upToHeight
  constructor
  · rintro ⟨checkpoint,hcheckpoint,-,hactive⟩
    obtain rfl := Except.ok.inj (heq.symm.trans hcheckpoint)
    have htip : localChain.tip ∈ ids.reverse++localChain.checkpoint :=
      List.mem_append_right _ List.mem_cons_self
    exact hactive _ htip (fun m hash hm _ => branch.hashAt_le hm)
  · intro htip
    refine ⟨_,heq,hascends,fun id hid hfork => ?_⟩
    rcases List.mem_append.mp hid with hid | hid
    · exact ((hids id).mp (List.mem_reverse.mp hid)).2.2
    · have hle := hfork _ _ branch.hashAt_tip htip
      rcases List.mem_cons.mp hid with rfl | hbelow
      · exact htip
      · have hlt := List.rel_of_pairwise_cons localChain.ascends hbelow
        omega

end Active

section Sample

open Sample ForkSample

namespace CheckpointSample

def extend (checkpoint : CheckPoint) : List BlockId → Except CheckPoint CheckPoint
  | [] => .ok checkpoint
  | id::ids =>
    if ∀ tip ∈ checkpoint.head?, tip.height < id.height then extend (id::checkpoint) ids
    else .error checkpoint

theorem extends_extend : Extends extend := by
  intro checkpoint ids
  induction ids generalizing checkpoint with
  | nil => simp [extend]
  | cons id ids ih =>
    intro hascends
    rw [List.reverse_cons,List.append_assoc] at hascends ⊢
    have hrest := ih (id::checkpoint) hascends
    have htip : ∀ tip ∈ checkpoint.head?, tip.height < id.height := by
      intro tip htip
      exact List.rel_of_pairwise_cons (List.pairwise_append.mp hascends).2.1
        (List.mem_of_mem_head? htip)
    rw [extend,if_pos htip]
    exact hrest

def localChain (branch : List Block) : LocalChain :=
  ⟨⟨1,(branch.headD genesis).blockHash⟩,[⟨0,genesis.blockHash⟩],by simp [CheckPoint.Ascends]⟩

def branch (blocks : List Block) : Branch (localChain blocks).tip :=
  ⟨[(blocks.headD genesis).blockHash,genesis.blockHash],rfl,rfl⟩

end CheckpointSample

open CheckpointSample

theorem getChainCheckpoint_active_iff_sample :
    ∃ checkpoint, getChainCheckpoint extend run.1 (localChain oldBranch) none = .ok checkpoint ∧
      checkpoint.Ascends ∧ ∀ id ∈ checkpoint, (branch oldBranch).AtOrAboveFork run.2 id.height →
        Chain.hashAt run.2 id.height = some id.hash :=
  (getChainCheckpoint_active_iff extends_extend reach_run _ none (branch oldBranch)).mpr
    (by decide +kernel)

/-- From a tip that was reorganised away, the checkpoint puts the active chain's second block on
top of the stale first one. -/
theorem stale_tip_checkpoint :
    getChainCheckpoint extend run.1 (localChain newBranch) none = .ok
        [⟨2,(oldBranch.getLastD genesis).blockHash⟩,(localChain newBranch).tip,⟨0,genesis.blockHash⟩] ∧
      Chain.hashAt run.2 2 = some (oldBranch.getLastD genesis).blockHash ∧
      (branch newBranch).AtOrAboveFork run.2 (localChain newBranch).tip.height ∧
      Chain.hashAt run.2 (localChain newBranch).tip.height ≠ some (localChain newBranch).tip.hash :=
  ⟨by decide +kernel,by decide +kernel,fun _ _ hm _ => (branch newBranch).hashAt_le hm,
    by decide +kernel⟩

end Sample

end Wallet

end Bip300301Enforcer
